import ScriptRepl.Proofs.Realm.Datum
import ScriptRepl.Realm.Global

/-! Literals: the expressions that spell a datum, and what they are evaluated to. -/
namespace ScriptRepl

namespace Entries

variable {α : Type}

theorem put_of_notMem {key : String} {es : List (String × α)} (h : key ∉ es.map Prod.fst) (value : α) :
    put key value es = es ++ [(key, value)] := by
  induction es with
  | nil => rfl
  | cons e es ih =>
      rw [List.map_cons, List.mem_cons, not_or] at h
      rw [put, if_neg (Ne.symm h.1), ih h.2]
      rfl

/-- Entries with new keys come behind those that are there, in their order. -/
theorem foldl_put {es more : List (String × α)} (h : ((es ++ more).map Prod.fst).Nodup) :
    more.foldl (fun es e => put e.1 e.2 es) es = es ++ more := by
  induction more generalizing es with
  | nil => simp
  | cons e more ih =>
      have hfresh : e.1 ∉ es.map Prod.fst := by
        rw [List.map_append, List.map_cons, List.nodup_append] at h
        exact fun hmem => h.2.2 _ hmem _ List.mem_cons_self rfl
      rw [List.foldl_cons, put_of_notMem hfresh, ih, List.append_assoc, List.singleton_append]
      rwa [List.append_assoc, List.singleton_append]

end Entries

theorem Dict.entries_ofList {α : Type} {es : List (String × α)} (h : (es.map Prod.fst).Nodup) :
    (Dict.ofList es).entries = es := by
  have hputs : (Dict.ofList es).entries = es.foldl (fun es e => Entries.put e.1 e.2 es) [] :=
    (List.foldl_hom Dict.entries fun _ _ => rfl).symm
  rw [hputs, Entries.foldl_put h, List.nil_append]

namespace Eval

variable {α β : Type} {h : Heap} {good : Heap → α → Prop}

/-- A run without a limit whose names for the special numbers stand for what they always do. -/
structure Ready (run : Run) : Prop where
  ticks : run.ticks = none
  nan : (run.realm.globals.get? "NaN").map (·.value) = some (.number Number.nan)
  infinity : (run.realm.globals.get? "Infinity").map (·.value) = some (.number Number.infinity)

theorem outcome_heap (run : Run) : heap.outcome run = (.ok run.realm.heap, run) :=
  rfl

theorem outcome_globals (run : Run) : globals.outcome run = (.ok run.realm.globals, run) :=
  rfl

theorem outcome_display_text (s : String) (run : Run) : (display (.text s)).outcome run = (.ok s, run) := by
  change (Except.ok (run.realm.heap.display (.text s)), run) = _
  rw [Heap.display, Heap.displayAt]

/-- From this heap on the computation comes to a good result in every ready run, and does nothing but add to the
heap. -/
def Builds (x : Eval α) (h : Heap) (good : Heap → α → Prop) : Prop :=
  ∀ run, Ready run → h.Extends run.realm.heap → ∃ a after, x.outcome run = (.ok a, after) ∧ Ready after ∧
    run.realm.heap.Extends after.realm.heap ∧ good after.realm.heap a

theorem builds_pure {a : α} (ha : ∀ h', h.Extends h' → good h' a) : (pure a : Eval α).Builds h good :=
  fun run hrun hext => ⟨a, run, rfl, hrun, .refl _, ha _ hext⟩

theorem Builds.imp {x : Eval α} {good' : Heap → α → Prop} (hx : x.Builds h good)
    (himp : ∀ h' a, good h' a → good' h' a) : x.Builds h good' := by
  intro run hrun hext
  obtain ⟨a, after, hafter, hready, hgrown, ha⟩ := hx run hrun hext
  exact ⟨a, after, hafter, hready, hgrown, himp _ _ ha⟩

theorem Builds.bind {x : Eval α} {f : α → Eval β} {good' : Heap → β → Prop} (hx : x.Builds h good)
    (hf : ∀ a h', h.Extends h' → good h' a → (f a).Builds h' good') : (x >>= f).Builds h good' := by
  intro run hrun hext
  obtain ⟨a, mid, hmid, hready, hgrown, ha⟩ := hx run hrun hext
  obtain ⟨b, after, hafter, hready', hgrown', hb⟩ := hf a _ (hext.trans hgrown) ha mid hready (.refl _)
  refine ⟨b, after, ?_, hready', hgrown.trans hgrown', hb⟩
  rw [outcome_bind, hmid]
  exact hafter

theorem builds_alloc {o : Obj} {good : Heap → Value → Prop}
    (ho : ∀ h', h.Extends h' → ∀ r, h'.get? r = some o → good h' (.object r)) : (alloc o).Builds h good := by
  intro run hrun hext
  have hgrown := Heap.Extends.alloc run.realm.heap o
  refine ⟨_, _, rfl, ⟨hrun.ticks, hrun.nan, hrun.infinity⟩, hgrown, ho _ (hext.trans hgrown) _ ?_⟩
  simp [Heap.alloc, Heap.get?, Heap.size]

/-- Where evaluation is not too deep yet. -/
theorem builds_entered {x : Eval α} {depth : Nat} (hdepth : depth < maxDepth) (hx : x.Builds h good) :
    (do tick; guardDepth depth; x).Builds h good := by
  rintro ⟨realm, ticks⟩ hrun hext
  cases hrun.ticks
  have hguard : guardDepth depth = pure () := if_neg (Nat.not_le.mpr hdepth)
  rw [hguard]
  exact hx ⟨realm, none⟩ hrun hext

end Eval

open Eval
open Syntax (Expr)

theorem Realm.ready_fresh (seed : UInt64) : Ready ⟨Realm.fresh seed, none⟩ := by
  obtain ⟨realm, hfresh⟩ : ∃ realm : Realm, Realm.fresh seed =
      (realm.define "NaN" (.number Number.nan)).define "Infinity" (.number Number.infinity) := ⟨_, rfl⟩
  rw [hfresh]
  refine ⟨rfl, ?_, ?_⟩
  · rw [Realm.define, Dict.get?_insert_of_ne _ (by decide), Realm.define, Dict.get?_insert_self]
    rfl
  · rw [Realm.define, Dict.get?_insert_self]
    rfl

namespace Datum

/-- An expression without a sign that stands for a number. -/
inductive Numeral : Float → Expr → Prop where
  | number (x : Float) : Numeral x (.number x)
  | nan : Numeral Number.nan (.name "NaN")
  | infinity : Numeral Number.infinity (.name "Infinity")

/-- The expressions that spell a datum. -/
inductive Literal : Datum → Expr → Prop where
  | undefined : Literal .undefined (.literal .undefined)
  | null : Literal .null (.literal .null)
  | bool (b : Bool) : Literal (.bool b) (.literal (.bool b))
  | number {x : Float} {e : Expr} (h : Numeral x e) : Literal (.number x) e
  | negative {x : Float} {e : Expr} (h : Numeral x e) : Literal (.number (-x)) (.unary .negate e)
  | text (s : String) : Literal (.text s) (.text s)
  | list {ds : List Datum} {es : List Expr} (hitems : List.Forall₂ Literal ds es) : Literal (.list ds) (.array es)
  | record {ds : List (String × Datum)} {fields : List (String × Expr)} (hkeys : ds.map Prod.fst = fields.map Prod.fst)
      (hnodup : (ds.map Prod.fst).Nodup) (hvalues : List.Forall₂ Literal (ds.map Prod.snd) (fields.map Prod.snd)) :
    Literal (.record ds) (.object fields)

variable {levels : Nat}

theorem Fits.items {ds : List Datum} (h : (Datum.list ds).Fits levels) {d : Datum} (hd : d ∈ ds) :
    ∃ n, levels = n + 1 ∧ d.Fits n := by
  cases levels with
  | zero =>
      cases h
      cases hd
  | succ n => exact ⟨n, rfl, h.2 d hd⟩

theorem Fits.fields {ds : List (String × Datum)} (h : (Datum.record ds).Fits levels) {d : Datum}
    (hd : d ∈ ds.map Prod.snd) : ∃ n, levels = n + 1 ∧ d.Fits n := by
  cases levels with
  | zero =>
      cases h
      cases hd
  | succ n => exact ⟨n, rfl, h d hd⟩

end Datum

namespace Evaluation

open Datum (Numeral Literal)

variable {speculative : Bool} {depth : Nat} {h : Heap}

theorem builds_name {name : String} {v : Value} (hdepth : depth < maxDepth)
    (hname : ∀ run, Ready run → (run.realm.globals.get? name).map (·.value) = some v) :
    (eval speculative depth (.name name)).Builds h fun _ v' => v' = v := by
  rw [eval]
  refine builds_entered hdepth fun run hrun _ => ?_
  obtain ⟨b, hb, hvalue⟩ := Option.map_eq_some_iff.mp (hname run hrun)
  refine ⟨b.value, run, ?_, hrun, .refl _, hvalue⟩
  rw [outcome_bind, outcome_globals]
  dsimp only
  rw [hb]
  rfl

theorem builds_numeral {x : Float} {e : Expr} (he : Numeral x e) (hdepth : depth < maxDepth) :
    (eval speculative depth e).Builds h fun _ v => v = .number x := by
  cases he with
  | number =>
      rw [eval]
      exact builds_entered hdepth (builds_pure fun _ _ => rfl)
  | nan => exact builds_name hdepth fun _ hrun => hrun.nan
  | infinity => exact builds_name hdepth fun _ hrun => hrun.infinity

theorem builds_negate {x : Float} {e : Expr} (he : Numeral x e) (hdepth : depth + 1 < maxDepth) :
    (eval speculative depth (.unary .negate e)).Builds h fun _ v => v = .number (-x) := by
  have hbound : ∀ globals, isUnbound globals .negate e = false := by
    intro globals
    cases e <;> rfl
  rw [eval]
  refine builds_entered (Nat.lt_of_succ_lt hdepth) ?_
  have hglobals : globals.Builds h fun _ _ => True := fun run hrun _ => ⟨_, run, rfl, hrun, .refl _, trivial⟩
  refine hglobals.bind fun known _ _ _ => ?_
  rw [hbound, if_neg Bool.false_ne_true]
  refine (builds_numeral he hdepth).bind ?_
  rintro _ h' _ rfl run hrun hext
  exact ⟨_, run, rfl, hrun, .refl _, rfl⟩

theorem builds_items {ds : List Datum} {es : List Expr}
    (hitems : List.Forall₂ (fun d e => ∀ h : Heap, (eval speculative depth e).Builds h (·.Represents d)) ds es) :
    (evalItems speculative depth es).Builds h fun h' vs => List.Forall₂ h'.Represents ds vs := by
  induction hitems generalizing h with
  | nil =>
      rw [evalItems]
      exact builds_pure fun _ _ => .nil
  | cons he _ ih =>
      rw [evalItems]
      refine (he h).bind fun v h₁ _ hv => ?_
      refine (ih (h := h₁)).bind fun vs h₂ hgrown hvs => ?_
      refine builds_pure fun h₃ hext => .cons (hv.mono (hgrown.trans hext)) ?_
      exact hvs.imp fun d v hd => hd.mono hext

theorem builds_fields {ds : List Datum} {fields : List (String × Expr)}
    (hvalues : List.Forall₂ (fun d e => ∀ h : Heap, (eval speculative depth e).Builds h (·.Represents d)) ds
      (fields.map Prod.snd)) :
    (evalFields speculative depth fields).Builds h fun h' es =>
      es.map Prod.fst = fields.map Prod.fst ∧ List.Forall₂ h'.Represents ds (es.map Prod.snd) := by
  induction fields generalizing h ds with
  | nil =>
      cases hvalues
      rw [evalFields]
      exact builds_pure fun _ _ => ⟨rfl, .nil⟩
  | cons field fields ih =>
      cases hvalues with
      | cons he hvalues =>
          rw [evalFields]
          refine (he h).bind fun v h₁ _ hv => ?_
          refine (ih (h := h₁) hvalues).bind fun es h₂ hgrown hes => ?_
          refine builds_pure fun h₃ hext => ⟨congrArg (field.1 :: ·) hes.1, .cons (hv.mono (hgrown.trans hext)) ?_⟩
          exact hes.2.imp fun d v hd => hd.mono hext

/-- A literal is evaluated to a value that is its datum. -/
theorem builds_literal {d : Datum} {e : Expr} {levels : Nat} (he : Literal d e) (hfits : d.Fits levels)
    (hdepth : depth + levels + 1 < maxDepth) : (eval speculative depth e).Builds h (·.Represents d) := by
  have hentered : depth < maxDepth := by omega
  induction d using Datum.induction generalizing e levels depth h with
  | undefined =>
      cases he
      rw [eval]
      exact builds_entered hentered (builds_pure fun _ _ => .undefined)
  | null =>
      cases he
      rw [eval]
      exact builds_entered hentered (builds_pure fun _ _ => .null)
  | bool b =>
      cases he
      rw [eval]
      exact builds_entered hentered (builds_pure fun _ _ => .bool b)
  | number x =>
      cases he with
      | number he => exact (builds_numeral he hentered).imp fun _ _ hv => hv ▸ .number _
      | negative he => exact (builds_negate he (by omega)).imp fun _ _ hv => hv ▸ .number _
  | text s =>
      cases he
      rw [eval]
      exact builds_entered hentered (builds_pure fun _ _ => .text s)
  | list ds ih =>
      cases he with
      | @list _ es hitems =>
          have hinner : List.Forall₂
              (fun d e => ∀ h : Heap, (eval speculative (depth + 1) e).Builds h (·.Represents d)) ds es := by
            refine forall₂_of_mem hitems fun d hd e he h => ?_
            obtain ⟨n, rfl, hitem⟩ := hfits.items hd
            have hdeeper : depth + 1 + n + 1 < maxDepth := by omega
            exact ih d hd he hitem hdeeper (by omega)
          rw [eval]
          refine builds_entered hentered ((builds_items hinner).bind fun vs h' _ hvs => ?_)
          exact builds_alloc fun h'' hext r hr => .list hr (hvs.imp fun d v hd => hd.mono hext)
  | record ds ih =>
      cases he with
      | @record _ fields hkeys hnodup hvalues =>
          have hinner : List.Forall₂
              (fun d e => ∀ h : Heap, (eval speculative (depth + 1) e).Builds h (·.Represents d))
              (ds.map Prod.snd) (fields.map Prod.snd) := by
            refine forall₂_of_mem hvalues fun d hd e he h => ?_
            obtain ⟨n, rfl, hvalue⟩ := hfits.fields hd
            have hdeeper : depth + 1 + n + 1 < maxDepth := by omega
            exact ih d hd he hvalue hdeeper (by omega)
          rw [eval]
          refine builds_entered hentered ((builds_fields hinner).bind fun es h' _ hes => ?_)
          have hentries : (Dict.ofList es).entries = es := by
            refine Dict.entries_ofList ?_
            rw [hes.1, ← hkeys]
            exact hnodup
          refine builds_alloc fun h'' hext r hr => .record hr ?_ ?_
          · rw [Dict.keys, hentries, hes.1, hkeys]
          · rw [Dict.values, hentries]
            exact hes.2.imp fun d v hd => hd.mono hext

end Evaluation

end ScriptRepl
