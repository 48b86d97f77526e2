import ScriptRepl.Proofs.Realm.Speculation

/-! What an expression does to the global names. Each name stays where it is and of the kind that it is, a constant
keeps its value, and the names that come to be are those that the expression assigned. -/
namespace ScriptRepl

open Syntax (Expr DeclKind)

/-- A name stays of its kind, and a constant keeps its value. -/
structure Binding.Becomes (before after : Binding) : Prop where
  kind : after.kind = before.kind
  constant : before.kind = .constKind → after = before

namespace Dict

/-- The later names begin with the earlier ones, in their order, and whatever was bound still is. -/
structure Retained (before after : Dict Binding) : Prop where
  order : before.keys <+: after.keys
  bindings : ∀ name b, before.get? name = some b → ∃ b', after.get? name = some b' ∧ b.Becomes b'

theorem keys_prefix_insert {α : Type} (d : Dict α) (name : String) (a : α) : d.keys <+: (d.insert name a).keys := by
  unfold keys insert
  rw [Entries.keys_put]
  split
  · exact List.prefix_rfl
  · exact List.prefix_append _ _

theorem contains_insert {α : Type} (d : Dict α) (key name : String) (a : α) :
    (d.insert key a).contains name = true ↔ d.contains name = true ∨ name = key := by
  unfold contains
  by_cases h : name = key
  · simp [h]
  · simp [get?_insert_of_ne d h, h]

namespace Retained

theorem refl (d : Dict Binding) : Retained d d :=
  ⟨List.prefix_rfl, fun _ b h => ⟨b, h, rfl, fun _ => rfl⟩⟩

theorem trans {a b c : Dict Binding} (h : Retained a b) (g : Retained b c) : Retained a c := by
  refine ⟨h.order.trans g.order, fun name first hfirst => ?_⟩
  obtain ⟨second, hsecond, hkind, hconst⟩ := h.bindings name first hfirst
  obtain ⟨third, hthird, hkind', hconst'⟩ := g.bindings name second hsecond
  refine ⟨third, hthird, hkind'.trans hkind, fun h => ?_⟩
  rw [hconst' (hkind.trans h), hconst h]

/-- A name may be given a value if it was not there at the start, or was of the same kind and no constant. -/
theorem insert {start d : Dict Binding} (h : Retained start d) {name : String} {kind : DeclKind}
    (hname : ∀ b, start.get? name = some b → kind = b.kind ∧ b.kind ≠ .constKind) (v : Value) :
    Retained start (d.insert name ⟨v, kind⟩) := by
  refine ⟨h.order.trans (keys_prefix_insert d name _), fun other b hb => ?_⟩
  by_cases hother : other = name
  · subst hother
    obtain ⟨hkind, hnot⟩ := hname b hb
    exact ⟨⟨v, kind⟩, get?_insert_self .., hkind, fun hconst => absurd hconst hnot⟩
  · rw [get?_insert_of_ne d hother]
    exact h.bindings other b hb

end Retained

end Dict

namespace Eval

/-- The computation leaves every name alone. -/
def LeavesNames (x : Eval α) : Prop :=
  ∀ run : Run, (x.outcome run).2.realm.globals = run.realm.globals

theorem Harmless.leavesNames {x : Eval α} (h : Harmless x) : LeavesNames x :=
  fun run => (h run).globals

namespace LeavesNames

theorem pure (a : α) : LeavesNames (Pure.pure a : Eval α) := fun _ => rfl

theorem setHeap (h : Heap) : LeavesNames (setHeap h) := fun _ => rfl

theorem bind {x : Eval α} {f : α → Eval β} (hx : LeavesNames x) (hf : ∀ a, LeavesNames (f a)) :
    LeavesNames (x >>= f) := by
  intro run
  have first := hx run
  rw [outcome_bind]
  cases hr : x.outcome run with
  | mk result after =>
      rw [hr] at first
      cases result with
      | ok a => exact (hf a after).trans first
      | error e => exact first

end LeavesNames

end Eval

open Eval

theorem Eval.outcome_globals_bind (f : Dict Binding → Eval α) (run : Run) :
    (globals >>= f).outcome run = (f run.realm.globals).outcome run := rfl

/-! ### Native functions and properties -/

theorem leavesNames_callListMethod (op : ListOp) (r : Ref) (items : Array Value) (args : List Value) :
    LeavesNames (callListMethod op r items args) := by
  cases hop : (Builtin.list op).hasSideEffect with
  | false => exact (harmless_callListMethod hop r items args).leavesNames
  | true =>
      refine Harmless.heap.leavesNames.bind fun h => ?_
      cases op with
      | reverse => exact (LeavesNames.setHeap _).bind fun _ => .pure _
      | push => exact (LeavesNames.setHeap _).bind fun _ => .pure _
      | pop => exact (LeavesNames.setHeap _).bind fun _ => .pure _
      | _ => cases hop

theorem leavesNames_callBuiltin (f : Builtin) (self : Value) (args : List Value) :
    LeavesNames (callBuiltin f self args) := by
  cases hf : f.hasSideEffect with
  | false => exact (harmless_callBuiltin hf self args).leavesNames
  | true =>
      cases f with
      | mathRandom => exact fun _ => rfl
      | consoleLog => exact fun _ => rfl
      | consoleError => exact fun _ => rfl
      | list op =>
          unfold callBuiltin
          dsimp only
          split
          · refine Harmless.heap.leavesNames.bind fun h => ?_
            split
            · exact leavesNames_callListMethod op _ _ args
            · exact (Harmless.raise _ _).leavesNames
          · exact (Harmless.raise _ _).leavesNames
      | _ => cases hf

theorem leavesNames_guardEffect (speculative : Bool) : LeavesNames (guardEffect speculative) :=
  (Harmless.ite (.raise _ _) (.pure _)).leavesNames

theorem leavesNames_callValue (speculative : Bool) (depth : Nat) (function : Value) (args : List Value)
    (shown : String) : LeavesNames (callValue speculative depth function args shown) := by
  refine Harmless.heap.leavesNames.bind fun h => ?_
  split
  · refine (leavesNames_guardEffect _).bind fun _ => ?_
    exact (Harmless.guardDepth depth).leavesNames.bind fun _ => leavesNames_callBuiltin _ _ args
  · exact (Harmless.raise _ _).leavesNames

theorem leavesNames_setProperty (target : Value) (key : String) (v : Value) :
    LeavesNames (setProperty target key v) := by
  have hrefused : LeavesNames (setProperty .undefined key v) ∧ LeavesNames (setProperty .null key v) :=
    ⟨((Harmless.display _).bind fun _ => .raise _ _).leavesNames,
      ((Harmless.display _).bind fun _ => .raise _ _).leavesNames⟩
  cases target with
  | undefined => exact hrefused.1
  | null => exact hrefused.2
  | object r =>
      refine Harmless.heap.leavesNames.bind fun h => ?_
      split
      · exact .pure _
      · split
        · exact .setHeap _
        · exact (Harmless.throw _).leavesNames
  | _ => exact .pure _

/-! ### Expressions -/

namespace Eval

/-- The computation comes to its end, and what follows has the property. -/
def After (x : Eval α) (next : α → Run → Prop) (run : Run) : Prop :=
  ∃ a after, x.outcome run = (.ok a, after) ∧ next a after

end Eval

namespace Evaluation

section

variable (speculative : Bool) (name : String)

mutual

/-- Whether the evaluation from a state, as far as it gets, carries out an assignment to the name. -/
def Assigns (depth : Nat) (e : Expr) : Run → Prop :=
  After tick fun _ => After (guardDepth depth) fun _ =>
    match e with
    | .number _ => fun _ => False
    | .text _ => fun _ => False
    | .literal _ => fun _ => False
    | .name _ => fun _ => False
    | .template _ parts => PartsAssign (depth + 1) parts
    | .array items => ItemsAssign (depth + 1) items
    | .object fields => FieldsAssign (depth + 1) fields
    | .member object _ => Assigns (depth + 1) object
    | .index object key => fun run =>
      Assigns (depth + 1) object run ∨
        After (eval speculative (depth + 1) object) (fun _ => Assigns (depth + 1) key) run
    | .call callee args => fun run =>
      Assigns (depth + 1) callee run ∨
        After (eval speculative (depth + 1) callee) (fun _ => ItemsAssign (depth + 1) args) run
    | .unary op operand =>
      After globals fun bindings run => isUnbound bindings op operand = false ∧ Assigns (depth + 1) operand run
    | .binary _ left right => fun run =>
      Assigns (depth + 1) left run ∨
        After (eval speculative (depth + 1) left) (fun _ => Assigns (depth + 1) right) run
    | .logical op left right => fun run =>
      Assigns (depth + 1) left run ∨
        After (eval speculative (depth + 1) left)
          (fun a run => settles op a = false ∧ Assigns (depth + 1) right run) run
    | .conditional test yes no => fun run =>
      Assigns (depth + 1) test run ∨
        After (eval speculative (depth + 1) test)
          (fun v run => if v.truthy then Assigns (depth + 1) yes run else Assigns (depth + 1) no run) run
    | .assignName target value =>
      After (guardEffect speculative) fun _ run =>
        Assigns (depth + 1) value run ∨
          After (eval speculative (depth + 1) value)
            (fun v => After (assignName target v) fun _ _ => name = target) run
    | .assignMember object _ value =>
      After (guardEffect speculative) fun _ run =>
        Assigns (depth + 1) value run ∨
          After (eval speculative (depth + 1) value) (fun _ => Assigns (depth + 1) object) run
    | .assignIndex object key value =>
      After (guardEffect speculative) fun _ run =>
        Assigns (depth + 1) value run ∨
          After (eval speculative (depth + 1) value) (fun _ run =>
            Assigns (depth + 1) object run ∨
              After (eval speculative (depth + 1) object) (fun _ => Assigns (depth + 1) key) run) run

def ItemsAssign (depth : Nat) : List Expr → Run → Prop
  | [], _ => False
  | e :: es, run =>
    Assigns depth e run ∨ After (eval speculative depth e) (fun _ => ItemsAssign depth es) run

def FieldsAssign (depth : Nat) : List (String × Expr) → Run → Prop
  | [], _ => False
  | (_, e) :: fields, run =>
    Assigns depth e run ∨ After (eval speculative depth e) (fun _ => FieldsAssign depth fields) run

def PartsAssign (depth : Nat) : List (Expr × String) → Run → Prop
  | [], _ => False
  | (e, _) :: parts, run =>
    Assigns depth e run ∨ After (eval speculative depth e) (fun _ => PartsAssign depth parts) run

end

end

end Evaluation

namespace Eval

/-- From every state the computation retains what is bound, and if the name is there afterwards, it was there or the
computation assigned it, which `A` tells from the state. -/
def Binds (name : String) (A : Run → Prop) (x : Eval α) : Prop :=
  ∀ run : Run,
    Dict.Retained run.realm.globals (x.outcome run).2.realm.globals ∧
      ((x.outcome run).2.realm.globals.contains name = true ↔ run.realm.globals.contains name = true ∨ A run)

theorem LeavesNames.binds {x : Eval α} (h : LeavesNames x) (name : String) : Binds name (fun _ => False) x := by
  intro run
  rw [h run]
  exact ⟨.refl _, by simp⟩

namespace Binds

variable {name : String} {A : Run → Prop}

theorem congr {A' : Run → Prop} {x : Eval α} (hx : Binds name A x) (h : ∀ run, A run ↔ A' run) : Binds name A' x :=
  fun run => ⟨(hx run).1, (hx run).2.trans (or_congr_right (h run))⟩

theorem bind {B : α → Run → Prop} {x : Eval α} {f : α → Eval β} (hx : Binds name A x)
    (hf : ∀ a, Binds name (B a) (f a)) : Binds name (fun run => A run ∨ After x B run) (x >>= f) := by
  intro run
  obtain ⟨hretained, hbound⟩ := hx run
  rw [outcome_bind]
  cases hr : x.outcome run with
  | mk result after =>
      rw [hr] at hretained hbound
      cases result with
      | error e =>
          refine ⟨hretained, hbound.trans (or_congr_right ⟨.inl, ?_⟩)⟩
          rintro (hA | ⟨a, after', hr', -⟩)
          · exact hA
          · cases hr.symm.trans hr'
      | ok a =>
          obtain ⟨hretained', hbound'⟩ := hf a after
          have hafter : After x B run ↔ B a after := by
            constructor
            · rintro ⟨a', after', hr', hB⟩
              cases hr.symm.trans hr'
              exact hB
            · exact fun hB => ⟨a, after, hr, hB⟩
          refine ⟨hretained.trans hretained', hbound'.trans ?_⟩
          change _ ↔ _ ∨ A run ∨ After x B run
          rw [hafter, ← or_assoc]
          exact or_congr_left hbound

theorem display {v : Value} {f : String → Eval α} (hf : ∀ shown, Binds name A (f shown)) :
    Binds name A (display v >>= f) :=
  fun run => hf (run.realm.heap.display v) run

/-- Only the first part binds names. -/
theorem andThen {x : Eval α} {f : α → Eval β} (hx : Binds name A x) (hf : ∀ a, LeavesNames (f a)) :
    Binds name A (x >>= f) := by
  refine (hx.bind fun a => (hf a).binds name).congr fun run => ?_
  simp [After]

end Binds

/-- Only what comes after the first part binds names. -/
theorem LeavesNames.andThen {name : String} {B : α → Run → Prop} {x : Eval α} {f : α → Eval β} (hx : LeavesNames x)
    (hf : ∀ a, Binds name (B a) (f a)) : Binds name (After x B) (x >>= f) :=
  ((hx.binds name).bind hf).congr fun _ => iff_of_eq (false_or _)

end Eval

namespace Evaluation

theorem binds_assignName (name target : String) (v : Value) :
    Binds name (After (assignName target v) fun _ _ => name = target) (assignName target v) := by
  intro run
  have hset {kind : DeclKind}
      (hkind : ∀ b, run.realm.globals.get? target = some b → kind = b.kind ∧ b.kind ≠ .constKind)
      (hout : (assignName target v).outcome run = (setGlobal target ⟨v, kind⟩).outcome run) :
      Dict.Retained run.realm.globals ((assignName target v).outcome run).2.realm.globals ∧
        (((assignName target v).outcome run).2.realm.globals.contains name = true ↔
          run.realm.globals.contains name = true ∨ After (assignName target v) (fun _ _ => name = target) run) := by
    have hafter : After (assignName target v) (fun _ _ => name = target) run ↔ name = target :=
      ⟨fun ⟨_, _, _, h⟩ => h, fun h => ⟨(), _, hout, h⟩⟩
    rw [hafter, hout]
    exact ⟨(Dict.Retained.refl _).insert hkind v, Dict.contains_insert ..⟩
  have hout : (assignName target v).outcome run = _ := outcome_globals_bind _ run
  cases hb : run.realm.globals.get? target with
  | none =>
      rw [hb] at hout
      exact hset (by simp [hb]) hout
  | some b =>
      rw [hb] at hout
      dsimp only at hout
      split at hout
      · have hnever : ¬ After (assignName target v) (fun _ _ => name = target) run := by
          rintro ⟨_, _, h, -⟩
          cases hout.symm.trans h
        obtain ⟨hretained, hbound⟩ := (Harmless.raise _ _).leavesNames.binds name run
        rw [hout]
        exact ⟨hretained, hbound.trans (or_congr_right (iff_of_false id hnever))⟩
      · rename_i hconst
        refine hset (fun b' hb' => ?_) hout
        cases hb.symm.trans hb'
        exact ⟨rfl, hconst⟩

variable (speculative : Bool)

mutual

theorem binds_eval (name : String) (depth : Nat) (e : Expr) :
    Binds name (Assigns speculative name depth e) (eval speculative depth e) := by
  rw [eval, Assigns.eq_def]
  refine Harmless.tick.leavesNames.andThen fun _ => (Harmless.guardDepth depth).leavesNames.andThen fun _ => ?_
  cases e with
  | number x => exact (LeavesNames.pure _).binds name
  | text s => exact (LeavesNames.pure _).binds name
  | literal l => cases l <;> exact (LeavesNames.pure _).binds name
  | name s =>
      refine (Harmless.globals.bind fun bindings => ?_).leavesNames.binds name
      split
      · exact .pure _
      · exact .raise _ _
  | template head parts => exact (binds_evalParts name (depth + 1) parts).andThen fun _ => .pure _
  | array items => exact (binds_evalItems name (depth + 1) items).andThen fun _ => (Harmless.alloc _).leavesNames
  | object fields => exact (binds_evalFields name (depth + 1) fields).andThen fun _ => (Harmless.alloc _).leavesNames
  | member object key =>
      exact (binds_eval name (depth + 1) object).andThen fun target => (harmless_getProperty target key).leavesNames
  | index object key =>
      refine (binds_eval name (depth + 1) object).bind fun target => ?_
      refine (binds_eval name (depth + 1) key).andThen fun k => ?_
      exact ((Harmless.display k).bind fun shown => harmless_getProperty target shown).leavesNames
  | call callee args =>
      refine (binds_eval name (depth + 1) callee).bind fun function => ?_
      exact (binds_evalItems name (depth + 1) args).andThen fun vs => leavesNames_callValue _ _ _ vs _
  | unary op operand =>
      refine Harmless.globals.leavesNames.andThen fun bindings => ?_
      split
      · rename_i hunbound
        exact ((LeavesNames.pure _).binds name).congr fun run => by simp [hunbound]
      · rename_i hbound
        refine ((binds_eval name (depth + 1) operand).andThen fun v => ?_).congr fun run => by simp [hbound]
        exact (harmless_applyUnary op v).leavesNames
  | binary op left right =>
      refine (binds_eval name (depth + 1) left).bind fun a => (binds_eval name (depth + 1) right).andThen fun b => ?_
      exact (Harmless.heap.bind fun _ => .pure _).leavesNames
  | logical op left right =>
      refine (binds_eval name (depth + 1) left).bind fun a => ?_
      split
      · rename_i hsettled
        exact ((LeavesNames.pure _).binds name).congr fun run => by simp [hsettled]
      · rename_i hopen
        exact (binds_eval name (depth + 1) right).congr fun run => by simp [hopen]
  | conditional test yes no =>
      refine (binds_eval name (depth + 1) test).bind fun v => ?_
      split
      · exact binds_eval name (depth + 1) yes
      · exact binds_eval name (depth + 1) no
  | assignName target value =>
      refine (leavesNames_guardEffect speculative).andThen fun _ => ?_
      refine (binds_eval name (depth + 1) value).bind fun v => ?_
      exact (binds_assignName name target v).andThen fun _ => .pure _
  | assignMember object key value =>
      refine (leavesNames_guardEffect speculative).andThen fun _ => ?_
      refine (binds_eval name (depth + 1) value).bind fun v => ?_
      refine (binds_eval name (depth + 1) object).andThen fun target => ?_
      exact (leavesNames_setProperty target key v).bind fun _ => .pure _
  | assignIndex object key value =>
      refine (leavesNames_guardEffect speculative).andThen fun _ => ?_
      refine (binds_eval name (depth + 1) value).bind fun v => ?_
      refine (binds_eval name (depth + 1) object).bind fun target => ?_
      refine (binds_eval name (depth + 1) key).andThen fun k => ?_
      refine (Harmless.display k).leavesNames.bind fun shown => ?_
      exact (leavesNames_setProperty target shown v).bind fun _ => .pure _

theorem binds_evalItems (name : String) (depth : Nat) (items : List Expr) :
    Binds name (ItemsAssign speculative name depth items) (evalItems speculative depth items) := by
  cases items with
  | nil => exact (LeavesNames.pure _).binds name
  | cons e es =>
      rw [evalItems]
      refine (binds_eval name depth e).bind fun v => ?_
      exact (binds_evalItems name depth es).andThen fun _ => .pure _

theorem binds_evalFields (name : String) (depth : Nat) (fields : List (String × Expr)) :
    Binds name (FieldsAssign speculative name depth fields) (evalFields speculative depth fields) := by
  cases fields with
  | nil => exact (LeavesNames.pure _).binds name
  | cons field fields =>
      obtain ⟨key, e⟩ := field
      rw [evalFields]
      refine (binds_eval name depth e).bind fun v => ?_
      exact (binds_evalFields name depth fields).andThen fun _ => .pure _

theorem binds_evalParts (name : String) (depth : Nat) (parts : List (Expr × String)) :
    Binds name (PartsAssign speculative name depth parts) (evalParts speculative depth parts) := by
  cases parts with
  | nil => exact (LeavesNames.pure _).binds name
  | cons part parts =>
      obtain ⟨e, s⟩ := part
      rw [evalParts]
      refine (binds_eval name depth e).bind fun v => ?_
      exact .display fun shown => (binds_evalParts name depth parts).andThen fun _ => .pure _

end

end Evaluation

end ScriptRepl
