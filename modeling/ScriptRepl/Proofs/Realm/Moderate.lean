import ScriptRepl.Proofs.Realm.Fitting
import ScriptRepl.Proofs.Syntax.Literals

/-! Where a program may make a text too long: where it adds texts up, fills a template, calls a native that builds a
text without a look at its length, or reads the message of an error. If none of these gives a text that is too long,
nothing does. -/
namespace ScriptRepl

open Eval
open Syntax (Expr Stmt Program DeclKind)

namespace Eval

/-- If the computation comes to its end, what follows has the property. -/
def Then (x : Eval α) (next : α → Run → Prop) (run : Run) : Prop :=
  ∀ a after, x.outcome run = (.ok a, after) → next a after

end Eval

namespace Evaluation

section

variable (speculative : Bool)

mutual

/-- The evaluation from a state, as far as it gets, makes no text too long where it does not look at the length. -/
def Moderate (depth : Nat) (e : Expr) : Run → Prop :=
  Then tick fun _ => Then (guardDepth depth) fun _ =>
    match e with
    | .number _ => fun _ => True
    | .text _ => fun _ => True
    | .literal _ => fun _ => True
    | .name _ => fun _ => True
    | .template head parts => fun run =>
      PartsModerate (depth + 1) parts run ∧
        (parts ≠ [] → Then (evalParts speculative (depth + 1) parts) (fun s _ => TextFits (head ++ s)) run)
    | .array items => ItemsModerate (depth + 1) items
    | .object fields => FieldsModerate (depth + 1) fields
    | .member object key => fun run =>
      Moderate (depth + 1) object run ∧
        Then (eval speculative (depth + 1) object) (fun v run => MessageFits run.realm.heap v key) run
    | .index object key => fun run =>
      Moderate (depth + 1) object run ∧
        Then (eval speculative (depth + 1) object) (fun v run =>
          Moderate (depth + 1) key run ∧
            Then (eval speculative (depth + 1) key)
              (fun k run => MessageFits run.realm.heap v (run.realm.heap.display k)) run) run
    | .call callee args => fun run =>
      Moderate (depth + 1) callee run ∧
        Then (eval speculative (depth + 1) callee) (fun function run =>
          ItemsModerate (depth + 1) args run ∧
            Then (evalItems speculative (depth + 1) args) (fun vs => CallFits function vs) run) run
    | .unary op operand => fun run =>
      isUnbound run.realm.globals op operand = false → Moderate (depth + 1) operand run
    | .binary op left right => fun run =>
      Moderate (depth + 1) left run ∧
        Then (eval speculative (depth + 1) left) (fun a run =>
          Moderate (depth + 1) right run ∧
            Then (eval speculative (depth + 1) right)
              (fun b run => op = .add → (applyBinary run.realm.heap op a b).Fits) run) run
    | .logical op left right => fun run =>
      Moderate (depth + 1) left run ∧
        Then (eval speculative (depth + 1) left)
          (fun a run => settles op a = false → Moderate (depth + 1) right run) run
    | .conditional test yes no => fun run =>
      Moderate (depth + 1) test run ∧
        Then (eval speculative (depth + 1) test)
          (fun v run => if v.truthy then Moderate (depth + 1) yes run else Moderate (depth + 1) no run) run
    | .assignName _ value => Then (guardEffect speculative) fun _ => Moderate (depth + 1) value
    | .assignMember object _ value =>
      Then (guardEffect speculative) fun _ run =>
        Moderate (depth + 1) value run ∧
          Then (eval speculative (depth + 1) value) (fun _ => Moderate (depth + 1) object) run
    | .assignIndex object key value =>
      Then (guardEffect speculative) fun _ run =>
        Moderate (depth + 1) value run ∧
          Then (eval speculative (depth + 1) value) (fun _ run =>
            Moderate (depth + 1) object run ∧
              Then (eval speculative (depth + 1) object) (fun _ => Moderate (depth + 1) key) run) run

def ItemsModerate (depth : Nat) : List Expr → Run → Prop
  | [], _ => True
  | e :: es, run => Moderate depth e run ∧ Then (eval speculative depth e) (fun _ => ItemsModerate depth es) run

def FieldsModerate (depth : Nat) : List (String × Expr) → Run → Prop
  | [], _ => True
  | (_, e) :: fields, run =>
    Moderate depth e run ∧ Then (eval speculative depth e) (fun _ => FieldsModerate depth fields) run

def PartsModerate (depth : Nat) : List (Expr × String) → Run → Prop
  | [], _ => True
  | (e, _) :: parts, run =>
    Moderate depth e run ∧ Then (eval speculative depth e) (fun _ => PartsModerate depth parts) run

end

/-- The initializer of a declaration, if it is evaluated. -/
def DeclareModerate (kind : DeclKind) (name : String) (init : Option Expr) : Run → Prop :=
  Then (guardEffect speculative) fun _ run =>
    Clashes run.realm.globals kind name = false → ∀ e ∈ init, Moderate speculative 0 e run

def RunModerate : Program → Run → Prop
  | [], _ => True
  | .empty :: rest, run => RunModerate rest run
  | .expr e :: rest, run =>
    Moderate speculative 0 e run ∧ Then (eval speculative 0 e) (fun _ => RunModerate rest) run
  | .decl kind name init :: rest, run =>
    DeclareModerate speculative kind name init run ∧
      Then (declare speculative kind name init) (fun _ => RunModerate rest) run

end

/-! ### Expressions -/

variable {speculative : Bool} {n : Nat}

theorem fits_applyBinary {op : Syntax.BinaryOp} (h : Heap) (a b : Value) (hop : op ≠ .add) :
    (applyBinary h op a b).Fits := by
  cases op with
  | add => exact absurd rfl hop
  | _ => trivial

theorem textFits_typeOf (h : Heap) (v : Value) : TextFits (h.typeOf v) := by
  unfold Heap.typeOf
  split
  · decide
  · decide
  · decide
  · decide
  · decide
  · split <;> decide

theorem fitting_applyUnary (op : Syntax.UnaryOp) (v : Value) : Fitting Value.Fits (applyUnary op v) := by
  refine .heap fun h _ => ?_
  cases op with
  | typeof => exact .pure (textFits_typeOf h v)
  | _ => exact .pure trivial

theorem fitting_assignName (name : String) {v : Value} (hv : v.Fits) :
    Fitting (fun _ => True) (assignName name v) := by
  refine .globals fun d _ => ?_
  split
  · exact .setGlobal hv
  · exact .ite (.raise (by decide) _) (.setGlobal hv)

/-- What is done first makes no text too long, and what comes then does not either. -/
theorem kept_then {P : α → Prop} {Q : β → Prop} {next : α → Run → Prop} {x : Eval α} {f : α → Eval β}
    {run : Run} (hx : Kept P (x.outcome run)) (hnext : Then x next run)
    (hf : ∀ a after, P a → after.realm.Fits → next a after → Kept Q ((f a).outcome after)) :
    Kept Q ((x >>= f).outcome run) :=
  hx.bind fun a after hout ha hafter => hf a after ha hafter (hnext a after hout)

/-- What comes then makes no text too long from any state. -/
theorem kept_andThen {P : α → Prop} {Q : β → Prop} {x : Eval α} {f : α → Eval β} {run : Run}
    (hx : Kept P (x.outcome run)) (hf : ∀ a, P a → Fitting Q (f a)) : Kept Q ((x >>= f).outcome run) :=
  hx.bind fun a after _ ha hafter => hf a ha after hafter

mutual

theorem kept_eval (depth : Nat) (e : Expr) (he : e.TextsWithin maxTextBytes) {run : Run} (hrun : run.realm.Fits)
    (h : Moderate speculative depth e run) : Kept Value.Fits ((eval speculative depth e).outcome run) := by
  rw [Moderate.eq_def] at h
  rw [eval]
  refine kept_then (Fitting.tick run hrun) h fun _ run _ hrun h => ?_
  refine kept_then (Fitting.guardDepth depth run hrun) h fun _ run _ hrun h => ?_
  cases e with
  | number x => exact Fitting.pure trivial run hrun
  | text s =>
      have htext : (Value.text s).Fits := he
      exact Fitting.pure htext run hrun
  | literal l => cases l <;> exact Fitting.pure trivial run hrun
  | name s =>
      refine Fitting.globals (fun d hd => ?_) run hrun
      split
      · rename_i hget
        exact .pure (hd _ (Dict.mem_of_get? hget))
      · exact .raise (by decide) _
  | template head parts =>
      cases parts with
      | nil =>
          have hhead : (Value.text (head ++ "")).Fits := by
            rw [String.append_empty]
            exact he.1
          exact Fitting.pure hhead run hrun
      | cons part parts =>
          refine kept_then (kept_evalParts (depth + 1) (part :: parts) he.2 hrun h.1) (h.2 (List.cons_ne_nil _ _)) ?_
          intro tail after _ hafter hfilled
          have hfits : (Value.text (head ++ tail)).Fits := hfilled
          exact Fitting.pure hfits after hafter
  | array items =>
      refine kept_andThen (kept_evalItems (depth + 1) items he hrun h) fun vs hvs => .alloc (.list ?_)
      simpa only [List.toList_toArray] using hvs
  | object fields =>
      refine kept_andThen (kept_evalFields (depth + 1) fields he hrun h) fun es hes => .alloc (.plain fun v hv => ?_)
      exact hes v (Dict.mem_of_mem_ofList hv)
  | member object key =>
      refine kept_then (kept_eval (depth + 1) object he hrun h.1) h.2 fun target run htarget hrun hmessage => ?_
      exact kept_getProperty hrun htarget hmessage
  | index object key =>
      refine kept_then (kept_eval (depth + 1) object he.1 hrun h.1) h.2 fun target run htarget hrun h => ?_
      refine kept_then (kept_eval (depth + 1) key he.2 hrun h.1) h.2 fun k run _ hrun hmessage => ?_
      exact Kept.display (kept_getProperty hrun htarget hmessage)
  | call callee args =>
      refine kept_then (kept_eval (depth + 1) callee he.1 hrun h.1) h.2 fun function run _ hrun h => ?_
      refine kept_then (kept_evalItems (depth + 1) args he.2 hrun h.1) h.2 fun vs run hvs hrun hcall => ?_
      exact kept_callValue _ _ _ hrun hvs hcall
  | unary op operand =>
      have hsplit : Kept Value.Fits ((if isUnbound run.realm.globals op operand then Pure.pure (.text "undefined")
          else eval speculative (depth + 1) operand >>= applyUnary op : Eval Value).outcome run) := by
        split
        · have hnamed : (Value.text "undefined").Fits := (by decide : TextFits "undefined")
          exact Fitting.pure hnamed run hrun
        · rename_i hbound
          refine kept_andThen (kept_eval (depth + 1) operand he hrun (h (Bool.eq_false_iff.mpr hbound))) fun v _ => ?_
          exact fitting_applyUnary op v
      exact hsplit
  | binary op left right =>
      refine kept_then (kept_eval (depth + 1) left he.1 hrun h.1) h.2 fun a run _ hrun h => ?_
      refine kept_then (kept_eval (depth + 1) right he.2 hrun h.1) h.2 fun b run _ hrun hsum => ?_
      refine Kept.heap (Fitting.pure ?_ run hrun)
      by_cases hop : op = .add
      · exact hsum hop
      · exact fits_applyBinary _ a b hop
  | logical op left right =>
      refine kept_then (kept_eval (depth + 1) left he.1 hrun h.1) h.2 fun a run ha hrun h => ?_
      split
      · exact Fitting.pure ha run hrun
      · rename_i hopen
        exact kept_eval (depth + 1) right he.2 hrun (h (Bool.eq_false_iff.mpr hopen))
  | conditional test yes no =>
      refine kept_then (kept_eval (depth + 1) test he.1 hrun h.1) h.2 fun v run _ hrun h => ?_
      split
      · rename_i hyes
        rw [if_pos hyes] at h
        exact kept_eval (depth + 1) yes he.2.1 hrun h
      · rename_i hno
        rw [if_neg hno] at h
        exact kept_eval (depth + 1) no he.2.2 hrun h
  | assignName target value =>
      refine kept_then (Fitting.guardEffect speculative run hrun) h fun _ run _ hrun h => ?_
      refine kept_andThen (kept_eval (depth + 1) value he hrun h) fun v hv => ?_
      exact (fitting_assignName target hv).bind fun _ _ => .pure hv
  | assignMember object key value =>
      refine kept_then (Fitting.guardEffect speculative run hrun) h fun _ run _ hrun h => ?_
      refine kept_then (kept_eval (depth + 1) value he.2 hrun h.1) h.2 fun v run hv hrun h => ?_
      refine kept_andThen (kept_eval (depth + 1) object he.1 hrun h) fun target _ => ?_
      exact (fitting_setProperty target key hv).bind fun _ _ => .pure hv
  | assignIndex object key value =>
      refine kept_then (Fitting.guardEffect speculative run hrun) h fun _ run _ hrun h => ?_
      refine kept_then (kept_eval (depth + 1) value he.2.2 hrun h.1) h.2 fun v run hv hrun h => ?_
      refine kept_then (kept_eval (depth + 1) object he.1 hrun h.1) h.2 fun target run _ hrun h => ?_
      refine kept_andThen (kept_eval (depth + 1) key he.2.1 hrun h) fun k _ => .display fun _ => ?_
      exact (fitting_setProperty target _ hv).bind fun _ _ => .pure hv

theorem kept_evalItems (depth : Nat) (items : List Expr) (hitems : Syntax.ItemsWithin maxTextBytes items) {run : Run}
    (hrun : run.realm.Fits) (h : ItemsModerate speculative depth items run) :
    Kept Value.AllFit ((evalItems speculative depth items).outcome run) := by
  cases items with
  | nil => exact Fitting.pure nofun run hrun
  | cons e es =>
      rw [evalItems]
      refine kept_then (kept_eval depth e hitems.1 hrun h.1) h.2 fun v run hv hrun h => ?_
      refine kept_andThen (kept_evalItems depth es hitems.2 hrun h) fun vs hvs => .pure ?_
      exact List.forall_mem_cons.mpr ⟨hv, hvs⟩

theorem kept_evalFields (depth : Nat) (fields : List (String × Expr))
    (hfields : Syntax.FieldsWithin maxTextBytes fields) {run : Run} (hrun : run.realm.Fits)
    (h : FieldsModerate speculative depth fields run) :
    Kept (fun es => Value.AllFit (es.map Prod.snd)) ((evalFields speculative depth fields).outcome run) := by
  cases fields with
  | nil => exact Fitting.pure nofun run hrun
  | cons field fields =>
      obtain ⟨key, e⟩ := field
      rw [evalFields]
      refine kept_then (kept_eval depth e hfields.1 hrun h.1) h.2 fun v run hv hrun h => ?_
      refine kept_andThen (kept_evalFields depth fields hfields.2 hrun h) fun es hes => .pure ?_
      exact List.forall_mem_cons.mpr ⟨hv, hes⟩

theorem kept_evalParts (depth : Nat) (parts : List (Expr × String)) (hparts : Syntax.PartsWithin maxTextBytes parts)
    {run : Run} (hrun : run.realm.Fits) (h : PartsModerate speculative depth parts run) :
    Kept (fun _ => True) ((evalParts speculative depth parts).outcome run) := by
  cases parts with
  | nil => exact Fitting.pure trivial run hrun
  | cons part parts =>
      obtain ⟨e, s⟩ := part
      rw [evalParts]
      refine kept_then (kept_eval depth e hparts.1 hrun h.1) h.2 fun v run _ hrun h => ?_
      refine Kept.display ?_
      exact kept_andThen (kept_evalParts depth parts hparts.2 hrun h) fun _ _ => .pure trivial

end

/-! ### Programs -/

theorem kept_declare (kind : DeclKind) (name : String) (init : Option Expr)
    (hinit : ∀ e ∈ init, e.TextsWithin maxTextBytes) {run : Run} (hrun : run.realm.Fits)
    (h : DeclareModerate speculative kind name init run) :
    Kept (fun _ => True) ((declare speculative kind name init).outcome run) := by
  unfold declare
  refine kept_then (Fitting.guardEffect speculative run hrun) h fun _ run _ hrun h => ?_
  change Kept _ ((if Clashes run.realm.globals kind name then _ else _ : Eval Unit).outcome run)
  split
  · exact Fitting.raise (by decide) _ run hrun
  · rename_i hfree
    cases init with
    | none =>
        refine Fitting.setGlobal ?_ run hrun
        cases hget : run.realm.globals.get? name with
        | none => trivial
        | some b => exact hrun.globals b (Dict.mem_of_get? hget)
    | some e =>
        have hmoderate := h (Bool.eq_false_iff.mpr hfree) e rfl
        exact kept_andThen (kept_eval 0 e (hinit e rfl) hrun hmoderate) fun v hv => .setGlobal hv

theorem kept_run {last : Value} (program : Program) (hprogram : ∀ s ∈ program, s.TextsWithin maxTextBytes)
    (hlast : last.Fits) {run : Run} (hrun : run.realm.Fits) (h : RunModerate speculative program run) :
    Kept Value.Fits ((Evaluation.run speculative last program).outcome run) := by
  induction program generalizing last run with
  | nil => exact Fitting.pure hlast run hrun
  | cons stmt rest ih =>
      obtain ⟨hstmt, hrest⟩ := List.forall_mem_cons.mp hprogram
      cases stmt with
      | empty => exact ih hrest hlast hrun h
      | expr e =>
          refine kept_then (kept_eval 0 e hstmt hrun h.1) h.2 fun v after hv hafter hnext => ?_
          exact ih hrest hv hafter hnext
      | decl kind name init =>
          refine kept_then (kept_declare kind name init hstmt hrun h.1) h.2 fun _ after _ hafter hnext => ?_
          exact ih hrest hlast hafter hnext

end Evaluation

end ScriptRepl
