import ScriptRepl.Proofs.Number.Rounding
import ScriptRepl.Proofs.Realm.Safe
import ScriptRepl.Realm.Request

/-! Where a program may run into a fault: only where it assigns to the length or to an index of a list, since only
there a list grows to a length that the program chooses. -/
namespace ScriptRepl

open Eval
open Syntax (Expr Stmt Program DeclKind)

/-! ### Places in texts and lists -/

/-- A negative place counts from the end by a sum of doubles, and so the size has to be a double. -/
theorem relativeIndex_le (h : Heap) (v : Value) {size default : Nat} (hsize : size ≤ 2 ^ 53)
    (hdefault : default ≤ size) : relativeIndex h v size default ≤ size := by
  have hplace (x : Float) :
      (if x < 0 then Number.toNatUpTo (Number.twoTo 64 - 1) (Number.ofNat size + x)
        else Number.toNatUpTo size x) ≤ size := by
    split
    · rename_i hneg
      exact Number.toNatUpTo_add_le hsize hneg _
    · exact Number.toNatUpTo_le size x
  unfold relativeIndex
  split
  · exact hdefault
  · exact hplace _

/-! ### Writing properties -/

/-- The length that a write asks a list to have at least, or to have if it sets the length. -/
def lengthAsked? (key : String) (v : Value) : Option Nat :=
  if key = "length" then some (lengthOf v) else (index? key).map (· + 1)

theorem Obj.write?_error (name message key : String) (v : Value) :
    ∃ message', (Obj.error name message).write? key v = some (.error name message') := by
  by_cases hkey : key = "message"
  · cases v <;> exact ⟨_, if_pos hkey⟩
  · exact ⟨message, if_neg hkey⟩

/-- Whether a list may change its length when the key is written. -/
def mayResize (key : String) : Bool :=
  key = "length" || (index? key).isSome

theorem mayResize_of_lengthAsked? {key : String} {v : Value} {n : Nat} (h : lengthAsked? key v = some n) :
    mayResize key = true := by
  rw [lengthAsked?] at h
  rw [mayResize, Bool.or_eq_true]
  split at h
  · exact .inl (decide_eq_true ‹_›)
  · obtain ⟨m, hm, _⟩ := Option.map_eq_some_iff.mp h
    exact .inr (by rw [hm]; rfl)

/-- What cannot be written is a list that would grow beyond the longest one. -/
theorem Obj.write?_eq_none_iff {o : Obj} {key : String} {v : Value} :
    o.write? key v = none ↔
      ∃ items n, o = .list items ∧ lengthAsked? key v = some n ∧ items.size < n ∧ maxListLength < n := by
  cases o with
  | plain fields => simp [write?]
  | function f self => simp [write?]
  | error name message =>
      obtain ⟨message', hsome⟩ := write?_error name message key v
      simp [hsome]
  | list items =>
      simp only [Obj.list.injEq, exists_and_left, exists_eq_left', write?, lengthAsked?]
      split
      · simp
      · cases index? key with
        | none => simp
        | some n =>
            simp only [Option.map_some, Option.some.injEq, exists_eq_left']
            split
            · simp
              omega
            · split
              · simp
                omega
              · simp
                omega

theorem mem_resize {items : Array Value} {n : Nat} {v : Value} (hv : v ∈ (resize items n).toList) :
    v = .undefined ∨ v ∈ items.toList := by
  rw [resize] at hv
  split at hv
  · rw [Array.toList_extract, List.extract] at hv
    exact .inr (List.mem_of_mem_drop (List.mem_of_mem_take hv))
  · rw [Array.toList_append, Array.toList_replicate, List.mem_append] at hv
    exact hv.symm.imp_left List.eq_of_mem_replicate

/-- A write leaves the kind of an object, and nothing comes into it but the value and `undefined`. -/
theorem Obj.write?_eq_some {o o' : Obj} {key : String} {v : Value} (h : o.write? key v = some o') :
    o.Becomes o' ∧ ∀ w ∈ o'.parts, w = .undefined ∨ w = v ∨ w ∈ o.parts := by
  cases o with
  | plain fields =>
      cases h
      exact ⟨.plain _ _, fun w hw => .inr (Dict.mem_of_mem_insert hw)⟩
  | function f self =>
      cases h
      exact ⟨.refl _, fun w hw => .inr (.inr hw)⟩
  | error name message =>
      obtain ⟨message', hsome⟩ := write?_error name message key v
      cases hsome.symm.trans h
      exact ⟨.error _ _ _, fun w hw => absurd hw List.not_mem_nil⟩
  | list items =>
      simp only [write?] at h
      split at h
      · split at h
        · cases h
        · cases h
          exact ⟨.list _ _, fun w hw => (mem_resize hw).imp_right .inr⟩
      · split at h
        · cases h
          exact ⟨.refl _, fun w hw => .inr (.inr hw)⟩
        · split at h
          · cases h
            refine ⟨.list _ _, fun w hw => .inr ?_⟩
            rw [parts, Array.toList_setIfInBounds] at hw
            exact (List.mem_or_eq_of_mem_set hw).symm
          · split at h
            · cases h
            · cases h
              refine ⟨.list _ _, fun w hw => ?_⟩
              rw [parts, Array.toList_push, List.mem_append, List.mem_singleton] at hw
              rcases hw with hw | rfl
              · exact (mem_resize hw).imp_right .inr
              · exact .inr (.inl rfl)

variable {h : Heap} {mayFault : Prop}

theorem safe_setProperty {v : Value} (target : Value) {key : String} (hv : v.InHeap h)
    (hfault : mayResize key = true → mayFault) : Safe h mayFault Plain (setProperty target key v) := by
  cases target with
  | undefined => exact .display (.raise _ _)
  | null => exact .display (.raise _ _)
  | object r =>
      refine .heap fun hh => ?_
      split
      · exact .pure trivial
      · rename_i o hr
        split
        · rename_i o' ho
          obtain ⟨hkind, hparts⟩ := Obj.write?_eq_some ho
          refine .setHeap hr hkind fun w hw => ?_
          rcases hparts w hw with rfl | rfl | hw
          · trivial
          · exact hv
          · exact hh r o hr w hw
        · rename_i hnone
          obtain ⟨items, n, _, hasked, _⟩ := Obj.write?_eq_none_iff.mp hnone
          rintro run rfl hclosed
          exact ⟨hclosed, .refl _, id, hfault (mayResize_of_lengthAsked? hasked)⟩
  | _ => exact .pure trivial

namespace Syntax

mutual

/-- Whether an assignment in the expression may set the length of a list. The key of an index is known only when the
expression is evaluated. -/
def Expr.resizes : Expr → Bool
  | .template _ parts => partsResize parts
  | .array items => itemsResize items
  | .object fields => fieldsResize fields
  | .member object _ => object.resizes
  | .index object key => object.resizes || key.resizes
  | .call callee args => callee.resizes || itemsResize args
  | .unary _ operand => operand.resizes
  | .binary _ left right => left.resizes || right.resizes
  | .logical _ left right => left.resizes || right.resizes
  | .conditional test yes no => test.resizes || yes.resizes || no.resizes
  | .assignName _ value => value.resizes
  | .assignMember object key value => mayResize key || object.resizes || value.resizes
  | .assignIndex .. => true
  | .number _ | .text _ | .literal _ | .name _ => false

def itemsResize : List Expr → Bool
  | [] => false
  | e :: es => e.resizes || itemsResize es

def fieldsResize : List (String × Expr) → Bool
  | [] => false
  | (_, e) :: fields => e.resizes || fieldsResize fields

def partsResize : List (Expr × String) → Bool
  | [] => false
  | (e, _) :: parts => e.resizes || partsResize parts

end

def Stmt.resizes : Stmt → Bool
  | .expr e => e.resizes
  | .decl _ _ init => init.any Expr.resizes
  | .empty => false

end Syntax

namespace Evaluation

theorem safe_assignName (name : String) {v : Value} (hv : v.InHeap h) :
    Safe h mayFault Plain (assignName name v) := by
  refine .globals fun d _ => ?_
  split
  · exact .setGlobal hv
  · exact .ite (fun _ => .raise _ _) fun _ => .setGlobal hv

theorem safe_applyUnary (op : Syntax.UnaryOp) (v : Value) : Safe h mayFault Value.InHeap (applyUnary op v) := by
  refine .heap fun _ => ?_
  cases op <;> exact .pure trivial

theorem inHeap_applyBinary (op : Syntax.BinaryOp) (a b : Value) : (applyBinary h op a b).InHeap h := by
  cases op with
  | add =>
      rw [applyBinary]
      split <;> trivial
  | _ => trivial

section

variable {speculative : Bool}

mutual

theorem safe_eval (depth : Nat) (e : Expr) (hfault : speculative = false → e.resizes = true → mayFault) (h : Heap) :
    Safe h mayFault Value.InHeap (eval speculative depth e) := by
  rw [eval]
  refine Safe.tick.bind fun h _ _ _ => (Safe.guardDepth depth).bind fun h _ _ _ => ?_
  cases e with
  | number x => exact .pure trivial
  | text s => exact .pure trivial
  | template head parts =>
      exact (safe_evalParts (depth + 1) parts hfault h).bind fun _ _ _ _ => .pure trivial
  | literal l => cases l <;> exact .pure trivial
  | name s =>
      refine .globals fun d hd => ?_
      split
      · rename_i hb
        exact .pure (hd _ (Dict.mem_of_get? hb))
      · exact .raise _ _
  | array items => exact (safe_evalItems (depth + 1) items hfault h).bind fun _ _ _ hvs => .alloc hvs
  | object fields =>
      refine (safe_evalFields (depth + 1) fields hfault h).bind fun _ _ _ hes => .alloc ?_
      exact hes.subset fun v hv => Dict.mem_of_mem_ofList hv
  | member object key =>
      exact (safe_eval (depth + 1) object hfault h).bind fun _ _ _ htarget => safe_getProperty htarget key
  | index object key =>
      simp only [Expr.resizes, Bool.or_eq_true, or_imp] at hfault
      refine (safe_eval (depth + 1) object (fun hs => (hfault hs).1) h).bind fun h target _ htarget => ?_
      refine (safe_eval (depth + 1) key (fun hs => (hfault hs).2) h).bind fun h' k hsize _ => .display ?_
      exact safe_getProperty (htarget.mono hsize) _
  | call callee args =>
      simp only [Expr.resizes, Bool.or_eq_true, or_imp] at hfault
      refine (safe_eval (depth + 1) callee (fun hs => (hfault hs).1) h).bind fun h function _ _ => ?_
      refine (safe_evalItems (depth + 1) args (fun hs => (hfault hs).2) h).bind fun h' vs _ hvs => ?_
      exact safe_callValue _ _ hvs _
  | unary op operand =>
      refine .globals fun d _ => .ite (fun _ => .pure trivial) fun _ => ?_
      exact (safe_eval (depth + 1) operand hfault h).bind fun _ v _ _ => safe_applyUnary op v
  | binary op left right =>
      simp only [Expr.resizes, Bool.or_eq_true, or_imp] at hfault
      refine (safe_eval (depth + 1) left (fun hs => (hfault hs).1) h).bind fun h a _ _ => ?_
      refine (safe_eval (depth + 1) right (fun hs => (hfault hs).2) h).bind fun h b _ _ => .heap fun _ => ?_
      exact .pure (inHeap_applyBinary op a b)
  | logical op left right =>
      simp only [Expr.resizes, Bool.or_eq_true, or_imp] at hfault
      refine (safe_eval (depth + 1) left (fun hs => (hfault hs).1) h).bind fun h a _ ha => ?_
      exact .ite (fun _ => .pure ha) fun _ => safe_eval (depth + 1) right (fun hs => (hfault hs).2) h
  | conditional test yes no =>
      simp only [Expr.resizes, Bool.or_eq_true, or_imp] at hfault
      refine (safe_eval (depth + 1) test (fun hs => (hfault hs).1.1) h).bind fun h v _ _ => ?_
      exact .ite (fun _ => safe_eval (depth + 1) yes (fun hs => (hfault hs).1.2) h)
        fun _ => safe_eval (depth + 1) no (fun hs => (hfault hs).2) h
  | assignName target value =>
      refine (Safe.guardEffect speculative).bind fun h _ _ _ => ?_
      refine (safe_eval (depth + 1) value hfault h).bind fun h v _ hv => ?_
      exact (safe_assignName target hv).bind fun _ _ hsize _ => .pure (hv.mono hsize)
  | assignMember object key value =>
      simp only [Expr.resizes, Bool.or_eq_true, or_imp] at hfault
      refine (Safe.guardEffect speculative).bind fun h _ _ hs => ?_
      refine (safe_eval (depth + 1) value (fun hs => (hfault hs).2) h).bind fun h v _ hv => ?_
      refine (safe_eval (depth + 1) object (fun hs => (hfault hs).1.2) h).bind fun h target hsize _ => ?_
      have hv := hv.mono hsize
      exact (safe_setProperty target hv (hfault hs).1.1).bind fun _ _ hsize _ => .pure (hv.mono hsize)
  | assignIndex object key value =>
      refine (Safe.guardEffect speculative).bind fun h _ _ hs => ?_
      have hfault : mayFault := hfault hs rfl
      refine (safe_eval (depth + 1) value (fun _ _ => hfault) h).bind fun h v _ hv => ?_
      refine (safe_eval (depth + 1) object (fun _ _ => hfault) h).bind fun h target hsize _ => ?_
      refine (safe_eval (depth + 1) key (fun _ _ => hfault) h).bind fun h k hsize' _ => .display ?_
      have hv := hv.mono (Nat.le_trans hsize hsize')
      exact (safe_setProperty target hv fun _ => hfault).bind fun _ _ hsize _ => .pure (hv.mono hsize)

theorem safe_evalItems (depth : Nat) (items : List Expr)
    (hfault : speculative = false → Syntax.itemsResize items = true → mayFault) (h : Heap) :
    Safe h mayFault Value.AllInHeap (evalItems speculative depth items) := by
  cases items with
  | nil => exact .pure (.nil h)
  | cons e es =>
      simp only [Syntax.itemsResize, Bool.or_eq_true, or_imp] at hfault
      rw [evalItems]
      refine (safe_eval depth e (fun hs => (hfault hs).1) h).bind fun h v _ hv => ?_
      refine (safe_evalItems depth es (fun hs => (hfault hs).2) h).bind fun h' vs hsize hvs => ?_
      exact .pure (.cons (hv.mono hsize) hvs)

theorem safe_evalFields (depth : Nat) (fields : List (String × Expr))
    (hfault : speculative = false → Syntax.fieldsResize fields = true → mayFault) (h : Heap) :
    Safe h mayFault Native.FieldsInHeap (evalFields speculative depth fields) := by
  cases fields with
  | nil => exact .pure (.nil h)
  | cons field fields =>
      obtain ⟨key, e⟩ := field
      simp only [Syntax.fieldsResize, Bool.or_eq_true, or_imp] at hfault
      rw [evalFields]
      refine (safe_eval depth e (fun hs => (hfault hs).1) h).bind fun h v _ hv => ?_
      refine (safe_evalFields depth fields (fun hs => (hfault hs).2) h).bind fun h' es hsize hes => ?_
      exact .pure (.cons (hv.mono hsize) hes)

theorem safe_evalParts (depth : Nat) (parts : List (Expr × String))
    (hfault : speculative = false → Syntax.partsResize parts = true → mayFault) (h : Heap) :
    Safe h mayFault Plain (evalParts speculative depth parts) := by
  cases parts with
  | nil => exact .pure trivial
  | cons part parts =>
      obtain ⟨e, s⟩ := part
      simp only [Syntax.partsResize, Bool.or_eq_true, or_imp] at hfault
      rw [evalParts]
      refine (safe_eval depth e (fun hs => (hfault hs).1) h).bind fun h v _ _ => .display ?_
      exact (safe_evalParts depth parts (fun hs => (hfault hs).2) h).bind fun _ _ _ _ => .pure trivial

end

theorem safe_declare (kind : DeclKind) (name : String) (init : Option Expr)
    (hfault : speculative = false → init.any Expr.resizes = true → mayFault) (h : Heap) :
    Safe h mayFault Plain (declare speculative kind name init) := by
  refine (Safe.guardEffect speculative).bind fun h _ _ _ => .globals fun d hd => ?_
  refine .ite (fun _ => .raise _ _) fun _ => ?_
  cases init with
  | none =>
      refine .setGlobal ?_
      cases hget : d.get? name with
      | none => trivial
      | some b => exact hd b (Dict.mem_of_get? hget)
  | some e => exact (safe_eval 0 e hfault h).bind fun _ _ _ hv => .setGlobal hv

theorem safe_run {last : Value} (program : Program)
    (hfault : speculative = false → program.any Stmt.resizes = true → mayFault) {h : Heap} (hlast : last.InHeap h) :
    Safe h mayFault Value.InHeap (run speculative last program) := by
  induction program generalizing last h with
  | nil => exact .pure hlast
  | cons stmt rest ih =>
      simp only [List.any_cons, Bool.or_eq_true, or_imp] at hfault
      have ih {h : Heap} {last : Value} (hlast : last.InHeap h) := ih (fun hs => (hfault hs).2) hlast
      cases stmt with
      | empty => exact ih hlast
      | expr e => exact (safe_eval 0 e (fun hs => (hfault hs).1) h).bind fun _ _ _ hv => ih hv
      | decl kind name init =>
          refine (safe_declare kind name init (fun hs => (hfault hs).1) h).bind fun _ _ hsize _ => ?_
          exact ih (hlast.mono hsize)

end

end Evaluation

/-! ### Hosts -/

namespace Host

/-- The source is run for good and has an assignment that may set the length of a list. -/
def MayFault (source : String) (options : EvalOptions) : Prop :=
  options.speculative = false ∧
    ∃ program, Syntax.parseProgram source = .ok program ∧ program.any Stmt.resizes = true

theorem safe_programOf (source : String) (options : EvalOptions) (h : Heap) :
    Safe h (MayFault source options) Value.InHeap (programOf source options) := by
  unfold programOf
  split
  · exact .raise _ _
  · rename_i program hparse
    exact Evaluation.safe_run program (fun hs ha => ⟨hs, program, hparse, ha⟩) trivial

theorem lookup_error {host : Host} {id : Nat} {e : CallError} (h : host.lookup id = .error e) :
    host.value? id = none ∧ e = .unknown id := by
  rw [lookup] at h
  split at h
  · cases h
  · rename_i hnone
    cases h
    exact ⟨hnone, rfl⟩

theorem lookups_error {host : Host} {ids : List Nat} {e : CallError} (h : ids.mapM host.lookup = .error e) :
    ∃ id ∈ ids, host.lookup id = .error e := by
  induction ids with
  | nil => cases h
  | cons id ids ih =>
      rw [List.mapM_cons] at h
      cases hid : host.lookup id with
      | error e' =>
          rw [hid] at h
          cases h
          exact ⟨id, List.mem_cons_self, hid⟩
      | ok v =>
          cases hids : ids.mapM host.lookup with
          | error e' =>
              rw [hid, hids] at h
              cases h
              obtain ⟨id', hid', herror⟩ := ih hids
              exact ⟨id', List.mem_cons_of_mem _ hid', herror⟩
          | ok rest =>
              rw [hid, hids] at h
              cases h

theorem exists_handle_of_lookup {host : Host} {id : Nat} {v : Value} (h : host.lookup id = .ok v) :
    ∃ handle ∈ host.handles, handle.value = v := by
  rw [lookup, value?] at h
  cases hfind : host.handles.find? (·.id == id) with
  | none =>
      rw [hfind] at h
      cases h
  | some handle =>
      rw [hfind] at h
      cases h
      exact ⟨handle, List.mem_of_find?_eq_some hfind, rfl⟩

theorem exists_handle_of_lookups {host : Host} {ids : List Nat} {vs : List Value}
    (h : ids.mapM host.lookup = .ok vs) : ∀ v ∈ vs, ∃ handle ∈ host.handles, handle.value = v := by
  induction ids generalizing vs with
  | nil =>
      cases h
      nofun
  | cons id ids ih =>
      rw [List.mapM_cons] at h
      cases hid : host.lookup id with
      | error e =>
          rw [hid] at h
          cases h
      | ok v =>
          cases hids : ids.mapM host.lookup with
          | error e =>
              rw [hid, hids] at h
              cases h
          | ok rest =>
              rw [hid, hids] at h
              cases h
              exact List.forall_mem_cons.mpr ⟨exists_handle_of_lookup hid, ih hids⟩

/-- What the callers hold refers to what is there, too. -/
structure Closed (host : Host) : Prop where
  realm : host.realm.Closed
  handles : ∀ handle ∈ host.handles, handle.value.InHeap host.realm.heap

namespace Closed

variable {host : Host}

theorem fresh (seed : UInt64) : (Host.fresh seed).Closed :=
  ⟨Realm.closed_fresh seed, fun _ hhandle => absurd hhandle List.not_mem_nil⟩

theorem register (hhost : host.Closed) {v : Value} (hv : v.InHeap host.realm.heap) (group : Option Group) :
    (host.register v group).2.Closed := by
  refine ⟨hhost.realm, fun handle hhandle => ?_⟩
  rcases List.mem_append.mp hhandle with hhandle | hhandle
  · exact hhost.handles handle hhandle
  · rw [List.mem_singleton.mp hhandle]
    exact hv

theorem release (hhost : host.Closed) (group : Group) : (host.release group).Closed :=
  ⟨hhost.realm, fun handle hhandle => hhost.handles handle (List.mem_filter.mp hhandle).1⟩

theorem lookup (hhost : host.Closed) {id : Nat} {v : Value} (hv : host.lookup id = .ok v) :
    v.InHeap host.realm.heap := by
  obtain ⟨handle, hhandle, rfl⟩ := exists_handle_of_lookup hv
  exact hhost.handles handle hhandle

theorem bind (hhost : host.Closed) (name : String) (id : Nat) : (host.bind name id).2.Closed := by
  rw [Host.bind]
  split
  · rename_i v hv
    exact ⟨hhost.realm.bind (b := ⟨v, .varKind⟩) (hhost.lookup hv), hhost.handles⟩
  · exact hhost

theorem perform (hhost : host.Closed) (ticks : Option Nat) (group : Option Group) {x : Eval Value}
    (hx : Safe host.realm.heap mayFault Value.InHeap x) :
    (host.perform ticks group x).2.Closed ∧
      ∀ e, (host.perform ticks group x).1 = .error e →
        e = .timeout ∧ ticks ≠ none ∨ e = .fault ∧ mayFault := by
  have hkeeps := hx ⟨host.realm, ticks⟩ rfl hhost.realm
  have hout : x.run.run ⟨host.realm, ticks⟩ = x.outcome ⟨host.realm, ticks⟩ := rfl
  rw [Host.perform, hout]
  revert hkeeps
  generalize x.outcome ⟨host.realm, ticks⟩ = out
  obtain ⟨result, run⟩ := out
  intro hkeeps
  have hmoved : Closed { host with realm := run.realm } :=
    ⟨hkeeps.closed, fun handle hhandle => (hhost.handles handle hhandle).mono hkeeps.develops.size_le⟩
  have hends := hkeeps.ends
  cases result with
  | ok v => exact ⟨hmoved.register hends group, nofun⟩
  | error e =>
      cases e with
      | throw v => exact ⟨hmoved.register hends group, nofun⟩
      | timeout => exact ⟨hmoved, fun e he => .inl ⟨(Except.error.inj he).symm, hends⟩⟩
      | fault => exact ⟨hmoved, fun e he => .inr ⟨(Except.error.inj he).symm, hends⟩⟩

theorem evaluate (hhost : host.Closed) (source : String) (options : EvalOptions) :
    (host.evaluate source options).2.Closed ∧
      ∀ e, (host.evaluate source options).1 = .error e →
        e = .timeout ∧ options.ticks ≠ none ∨ e = .fault ∧ MayFault source options :=
  hhost.perform _ _ (safe_programOf source options host.realm.heap)

theorem lookups (hhost : host.Closed) {ids : List Nat} {vs : List Value} (hvs : ids.mapM host.lookup = .ok vs) :
    Value.AllInHeap host.realm.heap vs := by
  intro v hv
  obtain ⟨handle, hhandle, rfl⟩ := exists_handle_of_lookups hvs v hv
  exact hhost.handles handle hhandle

theorem callFunction (hhost : host.Closed) (function : Nat) (args : List Nat) (group : Option Group) :
    (host.callFunction function args group).2.Closed ∧
      ∀ e, (host.callFunction function args group).1 = .error e →
        ∃ id ∈ function :: args, host.value? id = none ∧ e = .unknown id := by
  rw [Host.callFunction]
  split
  · rename_i f vs hf hvs
    have hsafe : Safe host.realm.heap False Value.InHeap (callValue false 0 f vs _) :=
      safe_callValue false 0 (hhost.lookups hvs) ("object " ++ CallError.handleText function)
    obtain ⟨hclosed, hends⟩ := hhost.perform none group hsafe
    refine ⟨hclosed, fun e he => ?_⟩
    rcases hends e he with ⟨_, hnone⟩ | ⟨_, hfault⟩
    · exact absurd rfl hnone
    · exact hfault.elim
  · rename_i e' hf
    refine ⟨hhost, fun e he => ?_⟩
    cases he
    exact ⟨function, List.mem_cons_self, lookup_error hf⟩
  · rename_i e' hargs _
    refine ⟨hhost, fun e he => ?_⟩
    cases he
    obtain ⟨id, hid, herror⟩ := lookups_error hargs
    exact ⟨id, List.mem_cons_of_mem _ hid, lookup_error herror⟩

theorem answer (hhost : host.Closed) (down : List Outage) (c : Call) : (host.answer down c).2.Closed := by
  cases c with
  | evaluate source options =>
      rw [Host.answer]
      split
      · exact hhost
      · exact (hhost.evaluate source options).1
  | bind name id =>
      rw [Host.answer]
      split
      · exact hhost
      · exact hhost.bind name id
  | inspect id style =>
      rw [Host.answer]
      split <;> exact hhost
  | release group => exact hhost.release group
  | _ => exact hhost

end Closed

/-- What callers do with a host. -/
inductive Visit where
  | call (down : List Outage) (c : Call)
  | callFunction (function : Nat) (args : List Nat) (group : Option Group)
  | takeGroup

def visit (host : Host) : Visit → Host
  | .call down c => (host.answer down c).2
  | .callFunction function args group => (host.callFunction function args group).2
  | .takeGroup => host.takeGroup.2

theorem Closed.visit {host : Host} (hhost : host.Closed) (v : Visit) : (host.visit v).Closed := by
  cases v with
  | call down c => exact hhost.answer down c
  | callFunction function args group => exact (hhost.callFunction function args group).1
  | takeGroup => exact ⟨hhost.realm, hhost.handles⟩

theorem Closed.visits {host : Host} (hhost : host.Closed) (vs : List Visit) : (vs.foldl Host.visit host).Closed := by
  induction vs generalizing host with
  | nil => exact hhost
  | cons v vs ih => exact ih (hhost.visit v)

/-- Whatever callers did before, no reference leads out of the heap, no value is a place outside of a text or a list,
and a call of a handle or the evaluation of a source is answered: by what came out of it unless a handle is not known,
the ticks that the caller allows are over, or the source, run for good, sets the length of a list or one of its items.
-/
theorem calls_answered (seed : UInt64) (visits : List Visit) :
    let host := visits.foldl visit (fresh seed)
    host.Closed ∧
      (∀ v size default, size ≤ 2 ^ 53 → default ≤ size → relativeIndex host.realm.heap v size default ≤ size) ∧
      (∀ source options e, (host.evaluate source options).1 = .error e →
        e = .timeout ∧ options.ticks ≠ none ∨ e = .fault ∧ MayFault source options) ∧
      ∀ function args group e, (host.callFunction function args group).1 = .error e →
        ∃ id ∈ function :: args, host.value? id = none ∧ e = .unknown id := by
  have hhost := (Closed.fresh seed).visits visits
  exact ⟨hhost, fun v _ _ hsize hdefault => relativeIndex_le _ v hsize hdefault,
    fun source options => (hhost.evaluate source options).2,
    fun function args group => (hhost.callFunction function args group).2⟩

/-- The length of a list is taken as it comes. -/
theorem evaluate_length_faults : ((fresh 1).evaluate "[].length = 1e18" {}).1 = .error .fault := by
  have hfault : (match ((fresh 1).evaluate "[].length = 1e18" {}).1 with
      | .error .fault => true
      | _ => false) = true := by decide +kernel
  split at hfault
  · assumption
  · cases hfault

end Host

end ScriptRepl
