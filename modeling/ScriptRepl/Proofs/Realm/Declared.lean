import ScriptRepl.Proofs.Realm.Assigned
import ScriptRepl.Proofs.Realm.Fault

/-! Declarations. A name that is declared with `let` or `const` cannot be declared again, and a declaration whose
value is never there declares nothing. Whatever callers have programs do, and in whatever order, nothing goes against
it. -/
namespace ScriptRepl

open Syntax (Expr Stmt Program DeclKind)

namespace Dict

/-- The name was declared with `let` or `const`. -/
def Declared (d : Dict Binding) (name : String) : Prop :=
  ∃ b, d.get? name = some b ∧ b.kind ≠ .varKind

theorem Retained.declared {d d' : Dict Binding} (h : Retained d d') {name : String} (hname : d.Declared name) :
    d'.Declared name := by
  obtain ⟨b, hb, hkind⟩ := hname
  obtain ⟨b', hb', hsame, -⟩ := h.bindings name b hb
  exact ⟨b', hb', by rwa [hsame]⟩

end Dict

namespace Eval

/-- From every state the computation retains what is bound. -/
def Retains (x : Eval α) : Prop :=
  ∀ run : Run, Dict.Retained run.realm.globals (x.outcome run).2.realm.globals

theorem LeavesNames.retains {x : Eval α} (h : LeavesNames x) : Retains x := by
  intro run
  rw [h run]
  exact .refl _

theorem Retains.bind {x : Eval α} {f : α → Eval β} (hx : Retains x) (hf : ∀ a, Retains (f a)) :
    Retains (x >>= f) := by
  intro run
  have first := hx run
  rw [outcome_bind]
  cases hr : x.outcome run with
  | mk result after =>
      rw [hr] at first
      cases result with
      | ok a => exact first.trans (hf a after)
      | error e => exact first

end Eval

open Eval

namespace Evaluation

variable {speculative : Bool} {kind : DeclKind} {name : String} {start : Run}

theorem retains_eval (speculative : Bool) (depth : Nat) (e : Expr) : Retains (eval speculative depth e) :=
  fun run => (binds_eval speculative "" depth e run).1

/-! ### A declaration -/

/-- The declaration goes against an earlier one. -/
def Clashes (d : Dict Binding) (kind : DeclKind) (name : String) : Bool :=
  (d.get? name).any fun b => kind ≠ .varKind || b.kind ≠ .varKind

theorem clashes_of_declared {d : Dict Binding} (h : d.Declared name) (kind : DeclKind) :
    Clashes d kind name = true := by
  obtain ⟨b, hb, hkind⟩ := h
  simp [Clashes, hb, hkind]

theorem eq_varKind_of_not_clashes {d : Dict Binding} (h : Clashes d kind name = false) {b : Binding}
    (hb : d.get? name = some b) : kind = .varKind ∧ b.kind = .varKind := by
  simpa [Clashes, hb] using h

/-- A speculative run gets no further than this. -/
theorem declare_refused (kind : DeclKind) (name : String) (init : Option Expr) (start : Run) :
    ∃ v after, (declare true kind name init).outcome start = (.error (.throw v), after) ∧
      after.realm.globals = start.realm.globals ∧
      after.realm.heap.object? v = some (.error "EvalError" "Possible side-effect in eager evaluation") :=
  outcome_raise _ _ start

theorem outcome_declare (init : Option Expr) :
    (declare false kind name init).outcome start =
      if Clashes start.realm.globals kind name then
        (raise "SyntaxError" ("Identifier '" ++ name ++ "' has already been declared")).outcome start
      else
        match init with
        | some e => (eval false 0 e >>= fun v => setGlobal name ⟨v, kind⟩).outcome start
        | none =>
          (setGlobal name ⟨((start.realm.globals.get? name).map (·.value)).getD .undefined, kind⟩).outcome start := by
  change (if Clashes start.realm.globals kind name then _ else _ : Eval Unit).outcome start = _
  split
  · rfl
  · cases init <;> rfl

/-- The initializer ends early and with it the declaration, or the name has the initializer's value. -/
theorem outcome_initialize (kind : DeclKind) (name : String) (start : Run) (e : Expr) :
    (∃ i after, (eval false 0 e).outcome start = (.error i, after) ∧
      (eval false 0 e >>= fun v => setGlobal name ⟨v, kind⟩).outcome start = (.error i, after)) ∨
    ∃ v after, (eval false 0 e).outcome start = (.ok v, after) ∧
      (eval false 0 e >>= fun v => setGlobal name ⟨v, kind⟩).outcome start =
        (setGlobal name ⟨v, kind⟩).outcome after := by
  rw [outcome_bind]
  cases hr : (eval false 0 e).outcome start with
  | mk result after =>
      cases result with
      | ok v => exact .inr ⟨v, after, rfl, rfl⟩
      | error i => exact .inl ⟨i, after, rfl, rfl⟩

theorem retains_declare (speculative : Bool) (kind : DeclKind) (name : String) (init : Option Expr) :
    Retains (declare speculative kind name init) := by
  intro start
  cases speculative with
  | true => exact (Harmless.guarded _).leavesNames.retains start
  | false =>
      rw [outcome_declare]
      split
      · exact (Harmless.raise _ _).leavesNames.retains start
      · rename_i hfree
        have hname : ∀ b, start.realm.globals.get? name = some b → kind = b.kind ∧ b.kind ≠ .constKind := by
          intro b hb
          obtain ⟨rfl, hb⟩ := eq_varKind_of_not_clashes (Bool.eq_false_iff.mpr hfree) hb
          simp [hb]
        cases init with
        | none => exact (Dict.Retained.refl _).insert hname _
        | some e =>
            -- The initializer may bind the name itself, as a variable; what counts is that it was not bound before.
            dsimp only
            have hretained := retains_eval false 0 e start
            rcases outcome_initialize kind name start e with ⟨i, after, he, hout⟩ | ⟨v, after, he, hout⟩
            · rw [hout]
              rwa [he] at hretained
            · rw [hout]
              rw [he] at hretained
              exact hretained.insert hname v

/-- Not even a speculative run, which is refused, gets past a declaration of a name that was declared before. -/
theorem declare_fails (speculative : Bool) (kind : DeclKind) (init : Option Expr)
    (h : start.realm.globals.Declared name) :
    ∃ v after, (declare speculative kind name init).outcome start = (.error (.throw v), after) ∧
      after.realm.globals = start.realm.globals ∧
      after.realm.heap.object? v = some (if speculative then
        .error "EvalError" "Possible side-effect in eager evaluation"
        else .error "SyntaxError" ("Identifier '" ++ name ++ "' has already been declared")) := by
  cases speculative with
  | true => exact declare_refused kind name init start
  | false =>
      rw [outcome_declare, if_pos (clashes_of_declared h kind)]
      exact outcome_raise _ _ start

theorem not_clashes_of_unbound {d : Dict Binding} (h : d.contains name = false) (kind : DeclKind) :
    ¬ Clashes d kind name = true := by
  have hnone : d.get? name = none := by simpa [Dict.contains] using h
  rw [Clashes, hnone]
  exact Bool.false_ne_true

/-- A declaration ends early if its initializer does. -/
theorem declare_error_of_eval_error {e : Expr} {i : Interrupt} {after : Run}
    (hunbound : start.realm.globals.contains name = false) (kind : DeclKind)
    (he : (eval speculative 0 e).outcome start = (.error i, after)) :
    ∃ j after', (declare speculative kind name (some e)).outcome start = (.error j, after') := by
  cases speculative with
  | true =>
      obtain ⟨v, after', hout, -⟩ := declare_refused kind name (some e) start
      exact ⟨_, after', hout⟩
  | false =>
      rw [outcome_declare, if_neg (not_clashes_of_unbound hunbound kind)]
      rcases outcome_initialize kind name start e with
        ⟨i', after', -, hout⟩ | ⟨v, after', hv, -⟩
      · exact ⟨i', after', hout⟩
      · cases he.symm.trans hv

/-- Where the name was not bound, a declaration that ends early leaves it bound if and only if the initializer had
assigned it by then. -/
theorem contains_of_declare_error {e : Expr} {i : Interrupt} {after : Run}
    (hunbound : start.realm.globals.contains name = false)
    (h : (declare speculative kind name (some e)).outcome start = (.error i, after)) :
    after.realm.globals.contains name = true ↔ Assigns speculative name 0 e start := by
  have hbinds := (binds_eval speculative name 0 e start).2
  rw [hunbound] at hbinds
  cases speculative with
  | true =>
      rw [(harmless_eval 0 e start).globals, hunbound] at hbinds
      obtain ⟨_, after', hout, hglobals, -⟩ := declare_refused kind name (some e) start
      cases hout.symm.trans h
      rw [hglobals, hunbound]
      simpa using hbinds
  | false =>
      rw [outcome_declare, if_neg (not_clashes_of_unbound hunbound kind)] at h
      rcases outcome_initialize kind name start e with
        ⟨i', after', he, hout⟩ | ⟨v, after', he, hout⟩
      · cases hout.symm.trans h
        rw [he] at hbinds
        simpa using hbinds
      · cases hout.symm.trans h

/-! ### Programs -/

theorem retains_run (last : Value) (program : Program) : Retains (run speculative last program) := by
  induction program generalizing last with
  | nil => exact (LeavesNames.pure _).retains
  | cons stmt rest ih =>
      cases stmt with
      | empty => exact ih last
      | expr e => exact (retains_eval speculative 0 e).bind fun v => ih v
      | decl kind name init => exact (retains_declare speculative kind name init).bind fun _ => ih last

/-- A program that declares a name again gives no value. -/
theorem run_ne_ok_of_declared {program : Program} {init : Option Expr} (hdecl : .decl kind name init ∈ program)
    (h : start.realm.globals.Declared name) (last v : Value) :
    ((run speculative last program).outcome start).1 ≠ .ok v := by
  induction program generalizing last start with
  | nil => cases hdecl
  | cons stmt rest ih =>
      cases stmt with
      | empty => exact ih ((List.mem_cons.mp hdecl).resolve_left nofun) h last
      | expr e =>
          have hretained := retains_eval speculative 0 e start
          rw [run, outcome_bind]
          cases hr : (eval speculative 0 e).outcome start with
          | mk result after =>
              rw [hr] at hretained
              cases result with
              | error i => exact nofun
              | ok v' => exact ih ((List.mem_cons.mp hdecl).resolve_left nofun) (hretained.declared h) v'
      | decl kind' name' init' =>
          have hretained := retains_declare speculative kind' name' init' start
          rw [run, outcome_bind]
          cases hr : (declare speculative kind' name' init').outcome start with
          | mk result after =>
              rw [hr] at hretained
              cases result with
              | error i => exact nofun
              | ok _ =>
                  rcases List.mem_cons.mp hdecl with hthis | hrest
                  · cases hthis
                    obtain ⟨_, _, hfails, -⟩ := declare_fails speculative kind init h
                    cases hr.symm.trans hfails
                  · exact ih hrest (hretained.declared h) last

end Evaluation

/-! ### Hosts -/

namespace Host

open Evaluation

/-- The visit gives a name a value from outside of any program. -/
def Visit.binds : Visit → Bool
  | .call _ (.bind ..) => true
  | _ => false

theorem perform_outcome (host : Host) (ticks : Option Nat) (group : Option Group) (x : Eval Value) :
    (host.perform ticks group x).2.realm = (x.outcome ⟨host.realm, ticks⟩).2.realm ∧
      ∀ remote, (host.perform ticks group x).1 = .ok (.value remote) →
        ∃ v, (x.outcome ⟨host.realm, ticks⟩).1 = .ok v := by
  have hout : x.run.run ⟨host.realm, ticks⟩ = x.outcome ⟨host.realm, ticks⟩ := rfl
  rw [perform, hout]
  generalize x.outcome ⟨host.realm, ticks⟩ = out
  obtain ⟨result, run⟩ := out
  cases result with
  | ok v => exact ⟨rfl, fun _ _ => ⟨v, rfl⟩⟩
  | error i =>
      cases i with
      | throw v => exact ⟨rfl, fun _ h => by cases h⟩
      | timeout => exact ⟨rfl, fun _ h => by cases h⟩
      | fault => exact ⟨rfl, fun _ h => by cases h⟩

theorem retained_perform (host : Host) (ticks : Option Nat) (group : Option Group) {x : Eval Value} (hx : Retains x) :
    Dict.Retained host.realm.globals (host.perform ticks group x).2.realm.globals := by
  rw [(perform_outcome host ticks group x).1]
  exact hx ⟨host.realm, ticks⟩

theorem retains_programOf (source : String) (options : EvalOptions) : Retains (programOf source options) := by
  unfold programOf
  split
  · exact (Harmless.raise _ _).leavesNames.retains
  · exact retains_run _ _

theorem retained_visit (host : Host) {v : Visit} (hv : v.binds = false) :
    Dict.Retained host.realm.globals (host.visit v).realm.globals := by
  cases v with
  | takeGroup => exact .refl _
  | callFunction function args group =>
      change Dict.Retained _ (host.callFunction function args group).2.realm.globals
      unfold callFunction
      split
      · exact retained_perform host none group (leavesNames_callValue _ _ _ _ _).retains
      · exact .refl _
      · exact .refl _
  | call down c =>
      change Dict.Retained _ (host.answer down c).2.realm.globals
      cases c with
      | bind name id => cases hv
      | evaluate source options =>
          rw [answer]
          split
          · exact .refl _
          · exact retained_perform host options.ticks options.group (retains_programOf source options)
      | inspect id style =>
          rw [answer]
          split <;> exact .refl _
      | _ => exact .refl _

theorem retained_visits (host : Host) {visits : List Visit} (hvisits : ∀ v ∈ visits, v.binds = false) :
    Dict.Retained host.realm.globals (visits.foldl visit host).realm.globals := by
  induction visits generalizing host with
  | nil => exact .refl _
  | cons v vs ih =>
      exact (retained_visit host (hvisits v List.mem_cons_self)).trans
        (ih (host.visit v) fun v' hv' => hvisits v' (List.mem_cons_of_mem v hv'))

theorem evaluate_ne_value_of_declared (host : Host) {source name : String} {program : Program} {kind : DeclKind}
    {init : Option Expr} (hparse : Syntax.parseProgram source = .ok program) (hdecl : .decl kind name init ∈ program)
    (h : host.realm.globals.Declared name) (options : EvalOptions) (remote : Remote) :
    (host.evaluate source options).1 ≠ .ok (.value remote) := by
  intro hvalue
  obtain ⟨v, hv⟩ := (perform_outcome host options.ticks options.group (programOf source options)).2 remote hvalue
  unfold programOf at hv
  rw [hparse] at hv
  exact run_ne_ok_of_declared hdecl h .undefined v hv

/-- Whatever host callers come to, let them go on with it as they like, evaluate sources and call functions,
whichever way it ends, and only give no name a value themselves. The names that there were then stay: in their order,
each of its kind, the constants with their values; and a source that declares a name of `let` or `const` again is not
answered with a value.

It is so at every moment. From whatever state a program starts, it retains the names; a declaration of a name of `let`
or `const` is refused and leaves the names as they are; and a declaration of a name that is not bound ends early if
its initializer does, and then the name is bound if and only if the initializer assigned it. -/
theorem names_obey_declarations (host : Host) (visits : List Visit) (hvisits : ∀ v ∈ visits, v.binds = false) :
    let later := visits.foldl visit host
    Dict.Retained host.realm.globals later.realm.globals ∧
      (∀ name, host.realm.globals.Declared name → ∀ source program kind init,
        Syntax.parseProgram source = .ok program → .decl kind name init ∈ program →
          ∀ options remote, (later.evaluate source options).1 ≠ .ok (.value remote)) ∧
      ∀ (start : Run) (speculative : Bool),
        (∀ last program,
          Dict.Retained start.realm.globals ((run speculative last program).outcome start).2.realm.globals) ∧
        (∀ name, start.realm.globals.Declared name → ∀ kind init,
          ∃ v after, (declare speculative kind name init).outcome start = (.error (.throw v), after) ∧
            after.realm.globals = start.realm.globals ∧
            after.realm.heap.object? v = some (if speculative then
              .error "EvalError" "Possible side-effect in eager evaluation"
              else .error "SyntaxError" ("Identifier '" ++ name ++ "' has already been declared"))) ∧
        ∀ name, start.realm.globals.contains name = false → ∀ kind e,
          (∀ i after, (eval speculative 0 e).outcome start = (.error i, after) →
            ∃ j after', (declare speculative kind name (some e)).outcome start = (.error j, after')) ∧
          ∀ i after, (declare speculative kind name (some e)).outcome start = (.error i, after) →
            (after.realm.globals.contains name = true ↔ Assigns speculative name 0 e start) := by
  have hretained := retained_visits host hvisits
  refine ⟨hretained, fun name hname source program kind init hparse hdecl => ?_, fun start speculative => ⟨?_, ?_, ?_⟩⟩
  · exact evaluate_ne_value_of_declared _ hparse hdecl (hretained.declared hname)
  · exact fun last program => retains_run last program start
  · exact fun name hname kind init => declare_fails speculative kind init hname
  · exact fun name hunbound kind e =>
      ⟨fun _ _ => declare_error_of_eval_error hunbound kind, fun _ _ => contains_of_declare_error hunbound⟩

/-- The only statement of a program, if it declares a name without a value. -/
def soleDeclaration? : Program → Option (DeclKind × String)
  | [.decl kind name none] => some (kind, name)
  | _ => none

theorem mem_of_soleDeclaration? {program : Program} {kind : DeclKind} {name : String}
    (h : soleDeclaration? program = some (kind, name)) : .decl kind name none ∈ program := by
  unfold soleDeclaration? at h
  split at h
  · cases h
    exact List.mem_cons_self
  · cases h

/-- A variable may change and a name may come to be on the way to an error; the constant stays. -/
theorem names_obey_declarations_const :
    let host := ((fresh 1).evaluate "const c = 1; let x = 2" {}).2
    let visits : List Visit := [.call [] (.evaluate "x = 5; let z = (y = 1) + q" {}), .callFunction 1 [] none]
    let later := visits.foldl visit host
    later.globalNames = host.globalNames ++ ["y"] ∧
      Dict.Retained host.realm.globals later.realm.globals ∧
      ∀ remote, (later.evaluate "var x" {}).1 ≠ .ok (.value remote) := by
  intro host visits later
  have hall := names_obey_declarations host visits (by simp [visits, Visit.binds])
  have hdeclared : host.realm.globals.Declared "x" := by
    have hkind : (host.realm.globals.get? "x").map (·.kind) = some .letKind := by decide +kernel
    obtain ⟨b, hb, hlet⟩ := Option.map_eq_some_iff.mp hkind
    exact ⟨b, hb, by simp [hlet]⟩
  obtain ⟨program, hparse, hdecl⟩ : ∃ program, Syntax.parseProgram "var x" = .ok program ∧
      .decl .varKind "x" none ∈ program := by
    have hsole : (Syntax.parseProgram "var x").toOption.bind soleDeclaration? = some (.varKind, "x") := by
      decide +kernel
    cases hparse : Syntax.parseProgram "var x" with
    | error e =>
        rw [hparse] at hsole
        cases hsole
    | ok program =>
        rw [hparse] at hsole
        exact ⟨program, rfl, mem_of_soleDeclaration? hsole⟩
  refine ⟨by decide +kernel, hall.1, ?_⟩
  exact hall.2.1 "x" hdeclared "var x" program .varKind none hparse hdecl {}

end Host

end ScriptRepl
