import ScriptRepl.Proofs.Realm.Undisturbed

/-! Speculative runs. Such a run is harmless, and it tells the truth: unless it is refused, a run that may have
effects does the same, step by step, and ends the same way in the same state. -/
namespace ScriptRepl

open Syntax (Expr Stmt Program DeclKind)

namespace Eval

/-- The computation ended in the error that stands for an effect. -/
def Refused (out : Except Interrupt α × Run) : Prop :=
  ∃ v, out.1 = .error (.throw v) ∧
    out.2.realm.heap.object? v = some (.error "EvalError" "Possible side-effect in eager evaluation")

/-- From every state the first computation is refused or does what the second one does. -/
def Agrees (x y : Eval α) : Prop :=
  ∀ run, Refused (x.outcome run) ∨ x.outcome run = y.outcome run

/-- An error that ends the first part of a computation ends the whole. -/
theorem Refused.bind {x : Eval α} {run : Run} (h : Refused (x.outcome run)) (f : α → Eval β) :
    Refused ((x >>= f).outcome run) := by
  obtain ⟨v, hv, ho⟩ := h
  rw [outcome_bind]
  cases hx : x.outcome run with
  | mk result after =>
      rw [hx] at hv ho
      cases hv
      exact ⟨v, rfl, ho⟩

theorem refused_guardEffect (run : Run) : Refused ((guardEffect true).outcome run) := by
  obtain ⟨v, after, hout, -, hv⟩ := outcome_raise "EvalError" "Possible side-effect in eager evaluation" run
  have hout : (guardEffect true).outcome run = _ := hout
  rw [hout]
  exact ⟨v, rfl, hv⟩

namespace Agrees

theorem refl (x : Eval α) : Agrees x x := fun _ => .inr rfl

theorem bind {x y : Eval α} {f g : α → Eval β} (h : Agrees x y) (hf : ∀ a, Agrees (f a) (g a)) :
    Agrees (x >>= f) (y >>= g) := by
  intro run
  rcases h run with hrefused | hsame
  · exact .inl (hrefused.bind f)
  · rw [outcome_bind, outcome_bind, ← hsame]
    cases hx : x.outcome run with
    | mk result after =>
        cases result with
        | ok a => exact hf a after
        | error e => exact .inr rfl

theorem guarded (f : Unit → Eval α) (y : Eval α) : Agrees (guardEffect true >>= f) y :=
  fun run => .inl ((refused_guardEffect run).bind f)

end Agrees

end Eval

open Eval

theorem agrees_callValue (depth : Nat) (function : Value) (args : List Value) (shown : String) :
    Agrees (callValue true depth function args shown) (callValue false depth function args shown) := by
  refine (Agrees.refl heap).bind fun h => ?_
  split
  · rename_i f self _
    cases hf : f.hasSideEffect with
    | true => exact .guarded _ _
    | false => exact .refl _
  · exact .refl _

namespace Evaluation

mutual

theorem agrees_eval (depth : Nat) (e : Expr) : Agrees (eval true depth e) (eval false depth e) := by
  rw [eval, eval]
  refine (Agrees.refl tick).bind fun _ => (Agrees.refl (guardDepth depth)).bind fun _ => ?_
  cases e with
  | number x => exact .refl _
  | text s => exact .refl _
  | template head parts => exact (agrees_evalParts (depth + 1) parts).bind fun _ => .refl _
  | literal l => cases l <;> exact .refl _
  | name s => exact .refl _
  | array items => exact (agrees_evalItems (depth + 1) items).bind fun _ => .refl _
  | object fields => exact (agrees_evalFields (depth + 1) fields).bind fun _ => .refl _
  | member object key => exact (agrees_eval (depth + 1) object).bind fun _ => .refl _
  | index object key =>
      refine (agrees_eval (depth + 1) object).bind fun target => ?_
      exact (agrees_eval (depth + 1) key).bind fun _ => .refl _
  | call callee args =>
      refine (agrees_eval (depth + 1) callee).bind fun function => ?_
      exact (agrees_evalItems (depth + 1) args).bind fun vs => agrees_callValue _ function vs _
  | unary op operand =>
      refine (Agrees.refl globals).bind fun bindings => ?_
      split
      · exact .refl _
      · exact (agrees_eval (depth + 1) operand).bind fun _ => .refl _
  | binary op left right =>
      refine (agrees_eval (depth + 1) left).bind fun a => ?_
      exact (agrees_eval (depth + 1) right).bind fun _ => .refl _
  | logical op left right =>
      refine (agrees_eval (depth + 1) left).bind fun a => ?_
      split
      · exact .refl _
      · exact agrees_eval (depth + 1) right
  | conditional test yes no =>
      refine (agrees_eval (depth + 1) test).bind fun v => ?_
      split
      · exact agrees_eval (depth + 1) yes
      · exact agrees_eval (depth + 1) no
  | assignName target value => exact .guarded _ _
  | assignMember object key value => exact .guarded _ _
  | assignIndex object key value => exact .guarded _ _

theorem agrees_evalItems (depth : Nat) (items : List Expr) :
    Agrees (evalItems true depth items) (evalItems false depth items) := by
  cases items with
  | nil => exact .refl _
  | cons e es =>
      rw [evalItems, evalItems]
      refine (agrees_eval depth e).bind fun v => ?_
      exact (agrees_evalItems depth es).bind fun _ => .refl _

theorem agrees_evalFields (depth : Nat) (fields : List (String × Expr)) :
    Agrees (evalFields true depth fields) (evalFields false depth fields) := by
  cases fields with
  | nil => exact .refl _
  | cons field fields =>
      obtain ⟨key, e⟩ := field
      rw [evalFields, evalFields]
      refine (agrees_eval depth e).bind fun v => ?_
      exact (agrees_evalFields depth fields).bind fun _ => .refl _

theorem agrees_evalParts (depth : Nat) (parts : List (Expr × String)) :
    Agrees (evalParts true depth parts) (evalParts false depth parts) := by
  cases parts with
  | nil => exact .refl _
  | cons part parts =>
      obtain ⟨e, s⟩ := part
      rw [evalParts, evalParts]
      refine (agrees_eval depth e).bind fun v => (Agrees.refl (display v)).bind fun shown => ?_
      exact (agrees_evalParts depth parts).bind fun _ => .refl _

end

/-! The same walk shows that a speculative run is harmless: what is not guarded only reads or adds to the heap. -/

theorem harmless_applyUnary (op : Syntax.UnaryOp) (v : Value) : Harmless (applyUnary op v) :=
  Harmless.heap.bind fun _ => .pure _

mutual

theorem harmless_eval (depth : Nat) (e : Expr) : Harmless (eval true depth e) := by
  rw [eval]
  refine Harmless.tick.bind fun _ => (Harmless.guardDepth depth).bind fun _ => ?_
  cases e with
  | number x => exact .pure _
  | text s => exact .pure _
  | template head parts => exact (harmless_evalParts (depth + 1) parts).bind fun _ => .pure _
  | literal l => cases l <;> exact .pure _
  | name s =>
      refine Harmless.globals.bind fun bindings => ?_
      split
      · exact .pure _
      · exact .raise _ _
  | array items => exact (harmless_evalItems (depth + 1) items).bind fun _ => .alloc _
  | object fields => exact (harmless_evalFields (depth + 1) fields).bind fun _ => .alloc _
  | member object key => exact (harmless_eval (depth + 1) object).bind fun target => harmless_getProperty target key
  | index object key =>
      refine (harmless_eval (depth + 1) object).bind fun target => ?_
      refine (harmless_eval (depth + 1) key).bind fun k => (Harmless.display k).bind fun shown => ?_
      exact harmless_getProperty target shown
  | call callee args =>
      refine (harmless_eval (depth + 1) callee).bind fun function => ?_
      exact (harmless_evalItems (depth + 1) args).bind fun vs => harmless_callValue _ function vs _
  | unary op operand =>
      refine Harmless.globals.bind fun bindings => ?_
      split
      · exact .pure _
      · exact (harmless_eval (depth + 1) operand).bind fun v => harmless_applyUnary op v
  | binary op left right =>
      refine (harmless_eval (depth + 1) left).bind fun a => (harmless_eval (depth + 1) right).bind fun b => ?_
      exact Harmless.heap.bind fun _ => .pure _
  | logical op left right =>
      refine (harmless_eval (depth + 1) left).bind fun a => ?_
      split
      · exact .pure _
      · exact harmless_eval (depth + 1) right
  | conditional test yes no =>
      refine (harmless_eval (depth + 1) test).bind fun v => ?_
      split
      · exact harmless_eval (depth + 1) yes
      · exact harmless_eval (depth + 1) no
  | assignName target value => exact .guarded _
  | assignMember object key value => exact .guarded _
  | assignIndex object key value => exact .guarded _

theorem harmless_evalItems (depth : Nat) (items : List Expr) : Harmless (evalItems true depth items) := by
  cases items with
  | nil => exact .pure _
  | cons e es =>
      rw [evalItems]
      refine (harmless_eval depth e).bind fun v => ?_
      exact (harmless_evalItems depth es).bind fun _ => .pure _

theorem harmless_evalFields (depth : Nat) (fields : List (String × Expr)) :
    Harmless (evalFields true depth fields) := by
  cases fields with
  | nil => exact .pure _
  | cons field fields =>
      obtain ⟨key, e⟩ := field
      rw [evalFields]
      refine (harmless_eval depth e).bind fun v => ?_
      exact (harmless_evalFields depth fields).bind fun _ => .pure _

theorem harmless_evalParts (depth : Nat) (parts : List (Expr × String)) :
    Harmless (evalParts true depth parts) := by
  cases parts with
  | nil => exact .pure _
  | cons part parts =>
      obtain ⟨e, s⟩ := part
      rw [evalParts]
      refine (harmless_eval depth e).bind fun v => (Harmless.display v).bind fun shown => ?_
      exact (harmless_evalParts depth parts).bind fun _ => .pure _

end

/-! ### Programs -/

theorem harmless_run (last : Value) (program : Program) : Harmless (run true last program) := by
  induction program generalizing last with
  | nil => exact .pure _
  | cons stmt rest ih =>
      cases stmt with
      | empty => exact ih last
      | expr e => exact (harmless_eval 0 e).bind fun v => ih v
      | decl kind name init => exact Harmless.bind (.guarded _) fun _ => ih last

theorem agrees_run (last : Value) (program : Program) : Agrees (run true last program) (run false last program) := by
  induction program generalizing last with
  | nil => exact .refl _
  | cons stmt rest ih =>
      cases stmt with
      | empty => exact ih last
      | expr e => exact (agrees_eval 0 e).bind fun v => ih v
      | decl kind name init => exact Agrees.bind (.guarded _ _) fun _ => ih last

/-- A speculative run is refused or it is the run itself: the same value, error or end of the ticks, and the same
heap, names, random numbers and printed lines. -/
theorem run_truthful (last : Value) (program : Program) (start : Run) :
    Refused ((run true last program).outcome start) ∨
      (run true last program).outcome start = (run false last program).outcome start :=
  agrees_run last program start

end Evaluation

end ScriptRepl
