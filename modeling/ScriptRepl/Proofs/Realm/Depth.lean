import ScriptRepl.Proofs.Realm.Undisturbed
import ScriptRepl.Proofs.Syntax.Height
import ScriptRepl.Realm.Host

/-! When evaluation does not run out of depth. Only the shape of a program uses it up, and by a level for each link
down its trees: nothing that a program calls is evaluated in turn. -/
namespace ScriptRepl

open Eval
open Syntax (Expr Stmt Program)

namespace Eval

/-- The error of an evaluation that has run out of depth. -/
def depthError : Obj :=
  .error "RangeError" "Maximum call stack size exceeded"

/-- Whatever the computation throws, it is not for lack of depth. -/
def WithinDepth (x : Eval α) : Prop :=
  ∀ run v, (x.outcome run).1 = .error (.throw v) → (x.outcome run).2.realm.heap.object? v ≠ some depthError

namespace WithinDepth

variable {α β : Type}

theorem pure (a : α) : WithinDepth (Pure.pure a : Eval α) := nofun

theorem bind {x : Eval α} {f : α → Eval β} (hx : WithinDepth x) (hf : ∀ a, WithinDepth (f a)) :
    WithinDepth (x >>= f) := by
  intro run v
  rw [outcome_bind]
  cases hr : x.outcome run with
  | mk result after =>
      cases result with
      | ok a => exact hf a after v
      | error e =>
          have hx := hx run v
          rw [hr] at hx
          rintro ⟨⟩
          exact hx rfl

theorem ite {c : Prop} [Decidable c] {x y : Eval α} (hx : WithinDepth x) (hy : WithinDepth y) :
    WithinDepth (if c then x else y) := by
  split
  · exact hx
  · exact hy

theorem heap : WithinDepth heap := nofun

theorem globals : WithinDepth globals := nofun

theorem setHeap (h : Heap) : WithinDepth (setHeap h) := nofun

theorem setGlobal (name : String) (b : Binding) : WithinDepth (setGlobal name b) := nofun

theorem print (line : String) : WithinDepth (print line) := nofun

theorem display (v : Value) : WithinDepth (display v) := nofun

theorem toNumber (v : Value) : WithinDepth (toNumber v) := nofun

theorem alloc (o : Obj) : WithinDepth (alloc o) := nofun

theorem raise {name message : String} (h : .error name message ≠ depthError) :
    WithinDepth (raise name message : Eval α) := by
  intro run v hv
  obtain ⟨v', after, hraise, _, hobject⟩ := outcome_raise (α := α) name message run
  rw [hraise] at hv ⊢
  cases hv
  rw [hobject]
  exact fun heq => h (Option.some.inj heq)

/-- An error of another kind. -/
theorem raiseOther {name : String} (message : String) (h : name ≠ "RangeError") :
    WithinDepth (Eval.raise name message : Eval α) :=
  raise fun heq => h (Obj.error.inj heq).1

theorem tick : WithinDepth tick := by
  rintro ⟨realm, ticks⟩ v
  cases ticks with
  | none => nofun
  | some n => cases n <;> nofun

theorem guardEffect (speculative : Bool) : WithinDepth (guardEffect speculative) :=
  ite (raiseOther _ (by decide)) (pure _)

theorem guardDepth {depth : Nat} (h : depth < maxDepth) : WithinDepth (guardDepth depth) := by
  rw [Eval.guardDepth, if_neg (Nat.not_le.mpr h)]
  exact pure ()

end WithinDepth

end Eval

/-! ### Properties -/

theorem withinDepth_method (self : Value) (f : Option Builtin) : WithinDepth (method self f) := by
  cases f with
  | none => exact .pure _
  | some f => exact .alloc _

theorem withinDepth_getProperty (target : Value) (key : String) : WithinDepth (getProperty target key) := by
  refine WithinDepth.heap.bind fun h => ?_
  split
  · exact .pure _
  · exact withinDepth_method target _
  · exact (WithinDepth.display target).bind fun _ => .raiseOther _ (by decide)

theorem withinDepth_setProperty (target : Value) (key : String) (v : Value) :
    WithinDepth (setProperty target key v) := by
  have hnullish : ∀ v : Value, WithinDepth (do
      let shown ← display v
      Eval.raise "TypeError" ("Cannot set properties of " ++ shown ++ " (setting '" ++ key ++ "')") : Eval Unit) :=
    fun v => (WithinDepth.display v).bind fun _ => .raiseOther _ (by decide)
  cases target with
  | undefined => exact hnullish _
  | null => exact hnullish _
  | object r =>
      refine WithinDepth.heap.bind fun h => ?_
      split
      · exact .pure _
      · split
        · exact .setHeap _
        · exact nofun
  | _ => exact .pure _

/-! ### Native functions -/

/-- A message that begins otherwise. -/
theorem withinDepth_raise_count (x : Float) :
    WithinDepth (Eval.raise "RangeError" ("Invalid count value: " ++ Number.spell x) : Eval Value) := by
  refine .raise fun heq => ?_
  have hmessage := congrArg String.toList (Obj.error.inj heq).2
  rw [String.toList_append] at hmessage
  exact absurd (congrArg List.head? hmessage) (by simp)

theorem withinDepth_callTextMethod (op : TextOp) (s : String) (args : List Value) :
    WithinDepth (callTextMethod op s args) := by
  refine WithinDepth.heap.bind fun h => ?_
  cases op with
  | indexOf =>
      dsimp only
      split <;> exact .pure _
  | repeated =>
      dsimp only
      split
      · exact .pure _
      · exact withinDepth_raise_count _
      · exact .raise (by simp [depthError])
  | split => exact .alloc _
  | _ => exact .pure _

theorem withinDepth_callListMethod (op : ListOp) (r : Ref) (items : Array Value) (args : List Value) :
    WithinDepth (callListMethod op r items args) := by
  refine WithinDepth.heap.bind fun h => ?_
  cases op with
  | join => exact .pure _
  | includes => exact .pure _
  | indexOf =>
      dsimp only
      split <;> exact .pure _
  | slice => exact .alloc _
  | concat => exact .alloc _
  | reverse => exact (WithinDepth.setHeap _).bind fun _ => .pure _
  | push => exact (WithinDepth.setHeap _).bind fun _ => .pure _
  | pop => exact (WithinDepth.setHeap _).bind fun _ => .pure _

namespace Native

theorem withinDepth_stringify (v space : Value) : WithinDepth (stringify v space) := by
  refine WithinDepth.heap.bind fun h => ?_
  split
  · exact .raiseOther _ (by decide)
  · exact .pure _
  · exact .pure _

theorem withinDepth_parseJson (source : String) : WithinDepth (parseJson source) := by
  unfold parseJson
  split
  · exact .raiseOther _ (by decide)
  · exact WithinDepth.heap.bind fun h => (WithinDepth.setHeap _).bind fun _ => .pure _

theorem withinDepth_ownFields (v : Value) : WithinDepth (ownFields v) := by
  cases v with
  | undefined => exact .raiseOther _ (by decide)
  | null => exact .raiseOther _ (by decide)
  | object r =>
      refine WithinDepth.heap.bind fun h => ?_
      split <;> exact .pure _
  | _ => exact .pure _

theorem withinDepth_fieldItems (part : FieldPart) (fields : List (String × Value)) :
    WithinDepth (fieldItems part fields) := by
  induction fields with
  | nil => exact .pure _
  | cons field fields ih =>
      have hitem : ∀ item : Value, WithinDepth (return item :: (← fieldItems part fields)) :=
        fun item => ih.bind fun _ => .pure _
      cases part with
      | keys => exact hitem _
      | values => exact hitem _
      | entries => exact (WithinDepth.alloc _).bind hitem

theorem withinDepth_textOf (self radix : Value) : WithinDepth (textOf self radix) := by
  cases self with
  | number x =>
      refine .ite (.pure _) ((WithinDepth.toNumber radix).bind fun n => ?_)
      exact .ite (.raise (by simp [depthError])) (.pure _)
  | _ => exact (WithinDepth.display _).bind fun _ => .pure _

theorem withinDepth_fixedText (self digits : Value) : WithinDepth (fixedText self digits) := by
  refine (WithinDepth.toNumber digits).bind fun x => ?_
  exact .ite (.raise (by simp [depthError])) ((WithinDepth.toNumber self).bind fun _ => .pure _)

end Native

open Native in
theorem withinDepth_callBuiltin (f : Builtin) (self : Value) (args : List Value) :
    WithinDepth (callBuiltin f self args) := by
  have hprint : ∀ lines : Heap → String,
      WithinDepth (do let h ← heap; print (lines h); return Value.undefined) := fun _ =>
    WithinDepth.heap.bind fun _ => (WithinDepth.print _).bind fun _ => .pure _
  unfold callBuiltin
  cases f with
  | math op => exact (WithinDepth.toNumber _).bind fun _ => .pure _
  | mathMax => exact WithinDepth.heap.bind fun _ => .pure _
  | mathMin => exact WithinDepth.heap.bind fun _ => .pure _
  | mathPow => exact (WithinDepth.toNumber _).bind fun _ => (WithinDepth.toNumber _).bind fun _ => .pure _
  | mathRandom => exact nofun
  | jsonStringify => exact withinDepth_stringify _ _
  | jsonParse => exact (WithinDepth.display _).bind fun _ => withinDepth_parseJson _
  | fields part =>
      refine (withinDepth_ownFields _).bind fun fields => ?_
      exact (withinDepth_fieldItems part fields).bind fun _ => .alloc _
  | isArray => exact WithinDepth.heap.bind fun _ => .pure _
  | toText =>
      cases args with
      | nil => exact .pure _
      | cons v args => exact (WithinDepth.display v).bind fun _ => .pure _
  | toNumber =>
      cases args with
      | nil => exact .pure _
      | cons v args => exact (WithinDepth.toNumber v).bind fun _ => .pure _
  | toBoolean => exact .pure _
  | consoleLog => exact hprint _
  | consoleError => exact hprint _
  | parseInt => exact (WithinDepth.display _).bind fun _ => (WithinDepth.toNumber _).bind fun _ => .pure _
  | parseFloat => exact (WithinDepth.display _).bind fun _ => .pure _
  | isNaN => exact (WithinDepth.toNumber _).bind fun _ => .pure _
  | isFinite => exact (WithinDepth.toNumber _).bind fun _ => .pure _
  | toString => exact withinDepth_textOf self _
  | toFixed => exact withinDepth_fixedText self _
  | text op => exact (WithinDepth.display self).bind fun s => withinDepth_callTextMethod op s args
  | list op =>
      dsimp only
      split
      · refine WithinDepth.heap.bind fun h => ?_
        split
        · exact withinDepth_callListMethod _ _ _ _
        · exact .raiseOther _ (by decide)
      · exact .raiseOther _ (by decide)

theorem withinDepth_callValue (speculative : Bool) {depth : Nat} (hdepth : depth < maxDepth) (function : Value)
    (args : List Value) (shown : String) : WithinDepth (callValue speculative depth function args shown) := by
  refine WithinDepth.heap.bind fun h => ?_
  split
  · refine (WithinDepth.guardEffect _).bind fun _ => (WithinDepth.guardDepth hdepth).bind fun _ => ?_
    exact withinDepth_callBuiltin _ _ args
  · exact .raiseOther _ (by decide)

/-! ### Evaluation -/

namespace Evaluation

theorem withinDepth_assignName (name : String) (v : Value) : WithinDepth (assignName name v) := by
  refine WithinDepth.globals.bind fun d => ?_
  split
  · exact .setGlobal _ _
  · exact .ite (.raiseOther _ (by decide)) (.setGlobal _ _)

theorem withinDepth_applyUnary (op : Syntax.UnaryOp) (v : Value) : WithinDepth (applyUnary op v) :=
  WithinDepth.heap.bind fun _ => .pure _

section

variable (speculative : Bool)

mutual

/-- A tree is evaluated within the depth that is left if there is a level for each link down it. -/
theorem withinDepth_eval {depth : Nat} (e : Expr) (h : depth + e.height < maxDepth) :
    WithinDepth (eval speculative depth e) := by
  rw [eval]
  refine WithinDepth.tick.bind fun _ => (WithinDepth.guardDepth (Nat.lt_of_le_of_lt (Nat.le_add_right _ _) h)).bind ?_
  rintro ⟨⟩
  cases e with
  | number x => exact .pure _
  | text s => exact .pure _
  | template head parts => exact (withinDepth_evalParts parts (by rw [Expr.height] at h; omega)).bind fun _ => .pure _
  | literal l => cases l <;> exact .pure _
  | name s =>
      refine WithinDepth.globals.bind fun d => ?_
      split
      · exact .pure _
      · exact .raiseOther _ (by decide)
  | array items => exact (withinDepth_evalItems items (by rw [Expr.height] at h; omega)).bind fun _ => .alloc _
  | object fields => exact (withinDepth_evalFields fields (by rw [Expr.height] at h; omega)).bind fun _ => .alloc _
  | member object key =>
      rw [Expr.height] at h
      exact (withinDepth_eval object (by omega)).bind fun _ => withinDepth_getProperty _ _
  | index object key =>
      rw [Expr.height] at h
      refine (withinDepth_eval object (by omega)).bind fun _ => (withinDepth_eval key (by omega)).bind fun _ => ?_
      exact (WithinDepth.display _).bind fun _ => withinDepth_getProperty _ _
  | call callee args =>
      rw [Expr.height] at h
      refine (withinDepth_eval callee (by omega)).bind fun _ => (withinDepth_evalItems args (by omega)).bind fun _ => ?_
      -- The call is a level below its expression, as the callee is.
      exact withinDepth_callValue _ (by omega) _ _ _
  | unary op operand =>
      rw [Expr.height] at h
      refine WithinDepth.globals.bind fun d => .ite (.pure _) ?_
      exact (withinDepth_eval operand (by omega)).bind fun _ => withinDepth_applyUnary _ _
  | binary op left right =>
      rw [Expr.height] at h
      refine (withinDepth_eval left (by omega)).bind fun _ => (withinDepth_eval right (by omega)).bind fun _ => ?_
      exact WithinDepth.heap.bind fun _ => .pure _
  | logical op left right =>
      rw [Expr.height] at h
      exact (withinDepth_eval left (by omega)).bind fun _ => .ite (.pure _) (withinDepth_eval right (by omega))
  | conditional test yes no =>
      rw [Expr.height] at h
      refine (withinDepth_eval test (by omega)).bind fun _ => ?_
      exact .ite (withinDepth_eval yes (by omega)) (withinDepth_eval no (by omega))
  | assignName target value =>
      rw [Expr.height] at h
      refine (WithinDepth.guardEffect _).bind fun _ => (withinDepth_eval value (by omega)).bind fun _ => ?_
      exact (withinDepth_assignName _ _).bind fun _ => .pure _
  | assignMember object key value =>
      rw [Expr.height] at h
      refine (WithinDepth.guardEffect _).bind fun _ => (withinDepth_eval value (by omega)).bind fun _ => ?_
      refine (withinDepth_eval object (by omega)).bind fun _ => ?_
      exact (withinDepth_setProperty _ _ _).bind fun _ => .pure _
  | assignIndex object key value =>
      rw [Expr.height] at h
      refine (WithinDepth.guardEffect _).bind fun _ => (withinDepth_eval value (by omega)).bind fun _ => ?_
      refine (withinDepth_eval object (by omega)).bind fun _ => (withinDepth_eval key (by omega)).bind fun _ => ?_
      exact (WithinDepth.display _).bind fun _ => (withinDepth_setProperty _ _ _).bind fun _ => .pure _

theorem withinDepth_evalItems {depth : Nat} (items : List Expr) (h : depth + Syntax.itemsHeight items ≤ maxDepth) :
    WithinDepth (evalItems speculative depth items) := by
  cases items with
  | nil => exact .pure _
  | cons e es =>
      rw [Syntax.itemsHeight] at h
      rw [evalItems]
      refine (withinDepth_eval e (by omega)).bind fun _ => (withinDepth_evalItems es (by omega)).bind fun _ => ?_
      exact .pure _

theorem withinDepth_evalFields {depth : Nat} (fields : List (String × Expr))
    (h : depth + Syntax.fieldsHeight fields ≤ maxDepth) : WithinDepth (evalFields speculative depth fields) := by
  cases fields with
  | nil => exact .pure _
  | cons field fields =>
      obtain ⟨key, e⟩ := field
      rw [Syntax.fieldsHeight] at h
      rw [evalFields]
      refine (withinDepth_eval e (by omega)).bind fun _ => (withinDepth_evalFields fields (by omega)).bind fun _ => ?_
      exact .pure _

theorem withinDepth_evalParts {depth : Nat} (parts : List (Expr × String))
    (h : depth + Syntax.partsHeight parts ≤ maxDepth) : WithinDepth (evalParts speculative depth parts) := by
  cases parts with
  | nil => exact .pure _
  | cons part parts =>
      obtain ⟨e, s⟩ := part
      rw [Syntax.partsHeight] at h
      rw [evalParts]
      refine (withinDepth_eval e (by omega)).bind fun _ => (WithinDepth.display _).bind fun _ => ?_
      exact (withinDepth_evalParts parts (by omega)).bind fun _ => .pure _

end

theorem withinDepth_declare (kind : Syntax.DeclKind) (name : String) (init : Option Expr)
    (h : (Stmt.decl kind name init).height < maxDepth) : WithinDepth (declare speculative kind name init) := by
  refine (WithinDepth.guardEffect _).bind fun _ => WithinDepth.globals.bind fun d => ?_
  refine .ite (.raiseOther _ (by decide)) ?_
  cases init with
  | none => exact .setGlobal _ _
  | some e =>
      refine (withinDepth_eval speculative e ?_).bind fun _ => .setGlobal _ _
      rwa [Nat.zero_add]

theorem withinDepth_run (last : Value) {program : Program} (h : ∀ s ∈ program, s.height < maxDepth) :
    WithinDepth (run speculative last program) := by
  induction program generalizing last with
  | nil => exact .pure _
  | cons s program ih =>
      obtain ⟨hs, hrest⟩ := List.forall_mem_cons.mp h
      cases s with
      | empty => exact ih last hrest
      | expr e =>
          refine (withinDepth_eval speculative e ?_).bind fun v => ih v hrest
          rwa [Nat.zero_add]
      | decl kind name init =>
          exact (withinDepth_declare speculative kind name init hs).bind fun _ => ih last hrest

end

/-- A program that the parser accepts does not run out of depth, whatever the realm, if no path down its trees has
more than 127 of the links that the parser makes in a loop. -/
theorem accepted_withinDepth {source : String} {program : Program} (hparse : Syntax.parseProgram source = .ok program)
    (hchained : ∀ s ∈ program, s.chained ≤ 127) (speculative : Bool) (last : Value) :
    WithinDepth (run speculative last program) := by
  refine withinDepth_run speculative last fun s hs => ?_
  calc s.height ≤ Syntax.Parser.maxNesting + s.chained := Syntax.height_le_of_parseProgram hparse s hs
    _ ≤ Syntax.Parser.maxNesting + 127 := Nat.add_le_add_left (hchained s hs) _
    _ < maxDepth := by decide

/-- As deep as the parser allows, and with as many links more. -/
def ladder (links : Nat) : String :=
  String.ofList (List.replicate Syntax.Parser.maxNesting '!' ++ '1' :: (List.replicate links ['+', '1']).flatten)

theorem accepted_withinDepth_ladder :
    ∃ program, Syntax.parseProgram (ladder 127) = .ok program ∧ (∀ s ∈ program, s.chained ≤ 127) ∧
      WithinDepth (run false .undefined program) := by
  have hread : (Syntax.parseProgram (ladder 127)).toOption.any (fun p => p.all fun s => s.chained ≤ 127) = true := by
    rw [ladder, Syntax.parseProgram, Syntax.Parser.inputOf, Syntax.lex, Text.Cursor.ofString, String.toList_ofList]
    decide +kernel
  cases hparse : Syntax.parseProgram (ladder 127) with
  | error e =>
      rw [hparse] at hread
      cases hread
  | ok program =>
      rw [hparse] at hread
      have hchained : ∀ s ∈ program, s.chained ≤ 127 := by
        simpa only [List.all_eq_true, decide_eq_true_eq] using show (program.all _) = true from hread
      exact ⟨program, rfl, hchained, accepted_withinDepth hparse hchained false .undefined⟩

def errorTexts? : Obj → Option (String × String)
  | .plain _ => none
  | .list _ => none
  | .function _ _ => none
  | .error name message => some (name, message)

/-- The name and the message of the error that a program has thrown. -/
def thrownError? (out : Except Interrupt Value × Run) : Option (String × String) :=
  match out.1 with
  | .ok _ => none
  | .error .timeout => none
  | .error .fault => none
  | .error (.throw v) => (out.2.realm.heap.object? v).bind errorTexts?

theorem eq_of_thrownError? {out : Except Interrupt Value × Run} {name message : String}
    (h : thrownError? out = some (name, message)) :
    ∃ v, out.1 = .error (.throw v) ∧ out.2.realm.heap.object? v = some (.error name message) := by
  unfold thrownError? at h
  split at h
  case h_4 v hout =>
      obtain ⟨o, ho, htexts⟩ := Option.bind_eq_some_iff.mp h
      cases o with
      | error =>
          cases htexts
          exact ⟨v, hout, ho⟩
      | _ => cases htexts
  all_goals cases h

/-- One link more is too many. -/
theorem accepted_beyond_depth :
    ∃ program, Syntax.parseProgram (ladder 128) = .ok program ∧ (∀ s ∈ program, s.chained ≤ 128) ∧
      ∃ v after, (run false .undefined program).outcome ⟨Realm.fresh 1, none⟩ = (.error (.throw v), after) ∧
        after.realm.heap.object? v = some depthError := by
  have hread : (Syntax.parseProgram (ladder 128)).toOption.any (fun p =>
      (p.all fun s => s.chained ≤ 128) &&
        thrownError? ((run false .undefined p).outcome ⟨Realm.fresh 1, none⟩) =
          some ("RangeError", "Maximum call stack size exceeded")) = true := by
    rw [ladder, Syntax.parseProgram, Syntax.Parser.inputOf, Syntax.lex, Text.Cursor.ofString, String.toList_ofList]
    decide +kernel
  cases hparse : Syntax.parseProgram (ladder 128) with
  | error e =>
      rw [hparse] at hread
      cases hread
  | ok program =>
      rw [hparse] at hread
      obtain ⟨hchained, hthrown⟩ := (Bool.and_eq_true _ _).mp (show (_ && _) = true from hread)
      obtain ⟨v, hout, hobject⟩ := eq_of_thrownError? (of_decide_eq_true hthrown)
      refine ⟨program, rfl, ?_, v, _, Prod.ext hout rfl, hobject⟩
      simpa only [List.all_eq_true, decide_eq_true_eq] using hchained

end Evaluation

end ScriptRepl
