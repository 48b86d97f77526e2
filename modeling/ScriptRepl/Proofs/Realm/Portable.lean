import ScriptRepl.Proofs.Json.RoundTrip
import ScriptRepl.Proofs.Number.Whole
import ScriptRepl.Proofs.Realm.Cycle
import ScriptRepl.Proofs.Realm.ReadBack
import ScriptRepl.Proofs.Realm.Room

/-! Values that JSON can carry. What they are written as is read back as the same value, with its keys in their
order. -/
namespace ScriptRepl

open Inspection (Above)
open Json (Exact)

/-- A value made of `null`, truth values, texts and whole numbers below `2 ^ 53`, with lists and plain objects nested no
more than so many levels deep. -/
inductive Heap.Portable (h : Heap) : (levels : Nat) → Value → Prop where
  | null {levels : Nat} : Portable h levels .null
  | bool {levels : Nat} (b : Bool) : Portable h levels (.bool b)
  | whole {levels : Nat} {n : Int} (hn : n.natAbs < 2 ^ 53) : Portable h levels (.number (Number.ofInt n))
  | text {levels : Nat} (s : String) : Portable h levels (.text s)
  | list {levels : Nat} {r : Ref} {items : Array Value} (hr : h.get? r = some (.list items))
    (hitems : ∀ v ∈ items.toList, Portable h levels v) : Portable h (levels + 1) (.object r)
  | plain {levels : Nat} {r : Ref} {fields : Dict Value} (hr : h.get? r = some (.plain fields))
    (hfields : ∀ v ∈ fields.values, Portable h levels v) : Portable h (levels + 1) (.object r)

/-- The two values are the same, each in its heap, with all that they refer to and the order of their keys. -/
def Heap.Same (h : Heap) (v : Value) (h' : Heap) (w : Value) : Prop :=
  ∃ d, h.Represents d v ∧ h'.Represents d w

/-- The JSON that carries a datum. -/
inductive Datum.Carried : Datum → Json → Prop where
  | null : Carried .null .null
  | bool (b : Bool) : Carried (.bool b) (.bool b)
  | whole {n : Int} (hn : n.natAbs < 2 ^ 53) : Carried (.number (Number.ofInt n)) (.number (.whole n))
  | text (s : String) : Carried (.text s) (.text s)
  | list {items : List Datum} {jsons : List Json} (hitems : List.Forall₂ Carried items jsons) :
    Carried (.list items) (.array jsons)
  | record {fields : List (String × Datum)} {jsons : List (String × Json)}
    (hnodup : (jsons.map Prod.fst).Nodup) (hkeys : fields.map Prod.fst = jsons.map Prod.fst)
    (hvalues : List.Forall₂ Carried (fields.map Prod.snd) (jsons.map Prod.snd)) :
    Carried (.record fields) (.object jsons)

namespace Heap

variable {h : Heap} {path : List Ref} {levels : Nat} {d : Datum} {v : Value} {json : Json}

/-! ### Written -/

theorem exists_forall₂_of_forall {α β γ : Type} {P : β → α → Prop} {Q : β → γ → Prop} {R : γ → Prop} {as : List α}
    (h : ∀ a ∈ as, ∃ b c, P b a ∧ Q b c ∧ R c) :
    ∃ bs cs, List.Forall₂ P bs as ∧ List.Forall₂ Q bs cs ∧ ∀ c ∈ cs, R c := by
  induction as with
  | nil => exact ⟨[], [], .nil, .nil, nofun⟩
  | cons a as ih =>
      obtain ⟨b, c, hP, hQ, hR⟩ := h a List.mem_cons_self
      obtain ⟨bs, cs, hPs, hQs, hRs⟩ := ih fun a ha => h a (List.mem_cons_of_mem _ ha)
      refine ⟨b :: bs, c :: cs, .cons hP hPs, .cons hQ hQs, ?_⟩
      intro c' hc'
      rcases List.mem_cons.mp hc' with rfl | hc'
      · exact hR
      · exact hRs c' hc'

theorem forall₂_of_common {α β γ : Type} {P : α → β → Prop} {Q : α → γ → Prop} {R : β → γ → Prop} {as : List α}
    {bs : List β} {cs : List γ} (hbs : List.Forall₂ P as bs) (hcs : List.Forall₂ Q as cs)
    (h : ∀ a ∈ as, ∀ b c, P a b → Q a c → R b c) : List.Forall₂ R bs cs := by
  induction hbs generalizing cs with
  | nil =>
      cases hcs
      exact .nil
  | cons hb _ ih =>
      cases hcs with
      | cons hc hcs =>
          exact .cons (h _ List.mem_cons_self _ _ hb hc) (ih hcs fun a ha => h a (List.mem_cons_of_mem _ ha))

theorem exists_keyed {α : Type} {keys : List String} {as : List α} (h : as.length = keys.length) :
    ∃ entries : List (String × α), entries.map Prod.fst = keys ∧ entries.map Prod.snd = as :=
  ⟨keys.zip as, List.map_fst_zip h.ge, List.map_snd_zip h.le⟩

/-- A portable value is a datum, and JSON that is read as it was written carries it. -/
theorem Portable.exists_carried (hv : h.Portable levels v) :
    ∃ d json, h.Represents d v ∧ d.Carried json ∧ Exact levels json := by
  induction hv with
  | null => exact ⟨.null, .null, .null, .null, .null⟩
  | bool b => exact ⟨.bool b, .bool b, .bool b, .bool b, .bool b⟩
  | @whole levels n hn =>
      have hlow : (2 : Int) ^ 53 ≤ Number.twoTo 63 := by decide
      have hhigh : (2 : Int) ^ 53 ≤ Json.Reader.maxWhole := by decide
      exact ⟨_, _, .number _, .whole hn, .whole (by omega) (by omega)⟩
  | text s => exact ⟨.text s, .text s, .text s, .text s, .text s⟩
  | list hr _ ih =>
      obtain ⟨ds, jsons, hds, hjsons, hexact⟩ := exists_forall₂_of_forall ih
      exact ⟨.list ds, .array jsons, .list hr hds, .list hjsons, .array hexact⟩
  | @plain levels r fields hr _ ih =>
      obtain ⟨ds, jsons, hds, hjsons, hexact⟩ := exists_forall₂_of_forall ih
      have hsize : fields.values.length = fields.keys.length := by
        simp [Dict.values, Dict.keys]
      obtain ⟨dsKeyed, hdsKeys, hdsValues⟩ := exists_keyed (hds.length_eq.trans hsize)
      obtain ⟨jsonsKeyed, hjsonsKeys, hjsonsValues⟩ :=
        exists_keyed (hjsons.length_eq.symm.trans (hds.length_eq.trans hsize))
      have hnodup : (jsonsKeyed.map Prod.fst).Nodup := by
        rw [hjsonsKeys]
        exact fields.nodup
      subst hdsValues hjsonsValues
      refine ⟨.record dsKeyed, .object jsonsKeyed, .record hr hdsKeys hds, ?_, ?_⟩
      · exact .record hnodup (hdsKeys.trans hjsonsKeys.symm) hjsons
      · exact .object hnodup fun field hfield => hexact _ (List.mem_map_of_mem hfield)

theorem jsonNumber_ofInt {n : Int} (hn : n.natAbs < 2 ^ 53) : jsonNumber (Number.ofInt n) = .number (.whole n) := by
  obtain ⟨b, hb, hintegral, hwhole, hvalue⟩ := Number.ofFloat?_ofInt hn.le
  have hfits : (b.isIntegral && decide (b.whole < Number.twoTo 53)) = true := by
    rw [hintegral, hwhole, Bool.true_and, decide_eq_true_eq]
    exact hn
  unfold jsonNumber
  rw [hb]
  dsimp only
  rw [if_pos hfits, hvalue]

theorem jsonItems_eq {vs : List Value} {jsons : List Json}
    (h' : List.Forall₂ (fun v json => h.jsonAt path v = .ok (some json)) vs jsons) :
    h.jsonItems path vs = .ok jsons := by
  induction h' with
  | nil => rw [jsonItems]
  | cons hv _ ih =>
      rw [jsonItems, hv, ih]
      rfl

theorem jsonFields_eq {entries : List (String × Value)} {jsons : List (String × Json)}
    (hkeys : entries.map Prod.fst = jsons.map Prod.fst)
    (hvalues : List.Forall₂ (fun v json => h.jsonAt path v = .ok (some json)) (entries.map Prod.snd)
      (jsons.map Prod.snd)) : h.jsonFields path entries = .ok jsons := by
  induction entries generalizing jsons with
  | nil =>
      cases jsons with
      | nil => rw [jsonFields]
      | cons => cases hkeys
  | cons entry entries ih =>
      cases jsons with
      | nil => cases hkeys
      | cons field jsons =>
          obtain ⟨key, v⟩ := entry
          obtain ⟨key', json⟩ := field
          simp only [List.map_cons, List.cons.injEq] at hkeys
          cases hvalues with
          | cons hv hvs =>
              dsimp only at hv
              rw [jsonFields, hv, ih hkeys.2 hvs, hkeys.1]
              rfl

/-- A value that is a datum is written as the JSON that carries the datum. -/
theorem Represents.jsonAt_eq (hd : h.Represents d v) (hcarried : d.Carried json) (habove : Above h path d) :
    h.jsonAt path v = .ok (some json) := by
  induction d using Datum.induction generalizing path v json with
  | undefined => cases hcarried
  | null =>
      cases hd
      cases hcarried
      rw [jsonAt]
  | bool b =>
      cases hd
      cases hcarried
      rw [jsonAt]
  | number x =>
      cases hd
      cases hcarried with
      | whole hn => rw [jsonAt, jsonNumber_ofInt hn]
  | text s =>
      cases hd
      cases hcarried
      rw [jsonAt]
  | list ds ih =>
      cases hcarried with
      | list hjsons =>
          cases hd with
          | @list r _ items hr hitems =>
              have hnew := habove.contains_eq_false (.list hr hitems)
              have hwritten : h.jsonItems (r :: path) items.toList = .ok _ :=
                jsonItems_eq (forall₂_of_common hitems hjsons fun d hd v json hv hjson =>
                  ih d hd hv hjson (habove.cons (.list hr hitems) (Datum.sizeOf_item hd)))
              rw [jsonAt_object, hnew, if_neg Bool.false_ne_true, hr]
              dsimp only
              rw [hwritten]
              rfl
  | record ds ih =>
      cases hcarried with
      | record _ hjsonKeys hjsons =>
          cases hd with
          | @record r _ fields hr hkeys hvalues =>
              have hnew := habove.contains_eq_false (.record hr hkeys hvalues)
              have hwritten : h.jsonFields (r :: path) fields.entries = .ok _ :=
                jsonFields_eq (hkeys.symm.trans hjsonKeys) (forall₂_of_common hvalues hjsons fun d hd v json hv hjson =>
                  ih d hd hv hjson (habove.cons (.record hr hkeys hvalues) (Datum.sizeOf_field hd)))
              rw [jsonAt_object, hnew, if_neg Bool.false_ne_true, hr]
              dsimp only
              rw [hwritten]
              rfl

/-! ### Read -/

theorem represents_ofJsonItems {ds : List Datum} {jsons : List Json} (hjsons : List.Forall₂ Datum.Carried ds jsons)
    (ih : ∀ d ∈ ds, ∀ {json}, d.Carried json → ∀ h : Heap, (h.ofJson json).2.Represents d (h.ofJson json).1)
    (h : Heap) : List.Forall₂ (h.ofJsonItems jsons).2.Represents ds (h.ofJsonItems jsons).1 := by
  induction hjsons generalizing h with
  | nil =>
      rw [ofJsonItems]
      exact .nil
  | @cons d json ds jsons hjson hjsons ihs =>
      rw [ofJsonItems]
      have hv := (ih d List.mem_cons_self hjson h).mono (extends_ofJsonItems _ jsons)
      exact .cons hv (ihs (fun d hd => ih d (List.mem_cons_of_mem _ hd)) _)

/-- Keys stay, in their order. -/
theorem represents_ofJsonFields {ds : List Datum} {jsons : List (String × Json)}
    (hjsons : List.Forall₂ Datum.Carried ds (jsons.map Prod.snd))
    (ih : ∀ d ∈ ds, ∀ {json}, d.Carried json → ∀ h : Heap, (h.ofJson json).2.Represents d (h.ofJson json).1)
    (h : Heap) : (h.ofJsonFields jsons).1.map Prod.fst = jsons.map Prod.fst ∧
      List.Forall₂ (h.ofJsonFields jsons).2.Represents ds ((h.ofJsonFields jsons).1.map Prod.snd) := by
  induction jsons generalizing ds h with
  | nil =>
      cases hjsons
      rw [ofJsonFields]
      exact ⟨rfl, .nil⟩
  | cons field jsons ihs =>
      obtain ⟨key, json⟩ := field
      cases hjsons with
      | @cons d _ ds _ hjson hjsons =>
          rw [ofJsonFields]
          obtain ⟨hkeys, hvalues⟩ := ihs hjsons (fun d hd => ih d (List.mem_cons_of_mem _ hd)) (h.ofJson json).2
          have hv := (ih d List.mem_cons_self hjson h).mono (extends_ofJsonFields _ jsons)
          exact ⟨congrArg (key :: ·) hkeys, .cons hv hvalues⟩

theorem get?_alloc_self (h : Heap) (o : Obj) : (h.alloc o).2.get? ⟨h.size⟩ = some o := by
  simp [alloc, get?, size]

/-- What is built from the JSON that carries a datum is the datum. -/
theorem represents_ofJson (hcarried : d.Carried json) (h : Heap) :
    (h.ofJson json).2.Represents d (h.ofJson json).1 := by
  induction d using Datum.induction generalizing json h with
  | undefined => cases hcarried
  | null =>
      cases hcarried
      rw [ofJson]
      exact .null
  | bool b =>
      cases hcarried
      rw [ofJson]
      exact .bool b
  | number x =>
      cases hcarried
      rw [ofJson]
      exact .number _
  | text s =>
      cases hcarried
      rw [ofJson]
      exact .text s
  | list ds ih =>
      cases hcarried with
      | list hjsons =>
          have hitems := represents_ofJsonItems hjsons ih h
          rw [ofJson]
          refine .list (get?_alloc_self _ _) ?_
          exact hitems.imp fun d v hv => hv.mono (.alloc _ _)
  | record ds ih =>
      cases hcarried with
      | @record _ jsons hnodup hkeys hjsons =>
          obtain ⟨hfieldKeys, hvalues⟩ := represents_ofJsonFields hjsons ih h
          have hentries : (Dict.ofList (h.ofJsonFields jsons).1).entries = (h.ofJsonFields jsons).1 :=
            Dict.entries_ofList (by rwa [hfieldKeys])
          rw [ofJson]
          refine .record (get?_alloc_self _ _) ?_ ?_
          · rw [Dict.keys, hentries, hfieldKeys, hkeys]
          · rw [Dict.values, hentries]
            exact hvalues.imp fun d v hv => hv.mono (.alloc _ _)

end Heap

open Eval

theorem Native.spaces_indent {space : Value} (hspace : space = .undefined ∨ ∃ x, space = .number x) :
    Json.Reader.Spaces (Native.indent space).toList := by
  intro c hc
  rcases hspace with rfl | ⟨x, rfl⟩
  · cases hc
  · rw [Native.indent] at hc
    split at hc
    · cases hc
    · rw [String.toList_ofList] at hc
      rw [List.eq_of_mem_replicate hc]
      decide

theorem outcome_parse (self : Value) {source : String} {json : Json} (hread : Json.read source = .ok json) (run : Run) :
    (callBuiltin .jsonParse self [.text source]).outcome run =
      (.ok (run.realm.heap.ofJson json).1,
        { run with realm := { run.realm with heap := (run.realm.heap.ofJson json).2 } }) := by
  have hcall : callBuiltin .jsonParse self [.text source] = Eval.display (.text source) >>= Native.parseJson := rfl
  rw [hcall, outcome_bind, outcome_display_text]
  dsimp only
  rw [Native.parseJson, hread]
  rfl

/-- Whole numbers below `2 ^ 53`, texts, truth values and `null`, in lists and plain objects up to 127 levels deep, are
written as a text, with any number as the indentation or none, and wherever the text is parsed it gives the same value
again, with its keys in their order. Writing changes nothing, and parsing only adds to the heap. -/
theorem parse_stringify {run : Run} {args : List Value} (hvalue : run.realm.heap.Portable 127 (argument args 0))
    (hspace : argument args 2 = .undefined ∨ ∃ x, argument args 2 = .number x) (self self' : Value) :
    ∃ text, (callBuiltin .jsonStringify self args).outcome run = (.ok (.text text), run) ∧
      ∀ later : Run, ∃ w h, (callBuiltin .jsonParse self' [.text text]).outcome later =
          (.ok w, { later with realm := { later.realm with heap := h } }) ∧
        later.realm.heap.Extends h ∧ run.realm.heap.Same (argument args 0) h w := by
  obtain ⟨d, json, hd, hcarried, hexact⟩ := hvalue.exists_carried
  have hwritten : run.realm.heap.jsonAt [] (argument args 0) = .ok (some json) := hd.jsonAt_eq hcarried nofun
  have hread := Json.read_render (Native.spaces_indent hspace) hexact
  refine ⟨json.render (Native.indent (argument args 2)), ?_, fun later => ?_⟩
  · rw [outcome_stringify, hwritten]
  · refine ⟨_, _, outcome_parse self' hread later, Heap.extends_ofJson _ json, d, hd, ?_⟩
    exact Heap.represents_ofJson hcarried later.realm.heap

/-- A list and an object without fields, in an object. -/
def carriedHeap : Heap :=
  ⟨#[.list #[.number (Number.ofInt (-5)), .null, .text "a\n\x01\""], .plain (Dict.ofList []),
    .plain ⟨[("b", .object ⟨0⟩), ("", .object ⟨1⟩), ("a", .bool true)], by decide⟩]⟩

theorem portable_carried : carriedHeap.Portable 127 (.object ⟨2⟩) := by
  refine .plain rfl ?_
  intro v hv
  simp only [Dict.values, List.map_cons, List.map_nil, List.mem_cons, List.not_mem_nil, or_false] at hv
  rcases hv with rfl | rfl | rfl
  · refine .list rfl ?_
    intro v hv
    simp only [List.mem_cons, List.not_mem_nil, or_false] at hv
    rcases hv with rfl | rfl | rfl
    · exact .whole (by decide)
    · exact .null
    · exact .text _
  · refine .plain rfl ?_
    intro v hv
    cases hv
  · exact .bool true

theorem parse_stringify_carried :
    carriedHeap.Portable 127 (.object ⟨2⟩) ∧
      ∃ text, (callBuiltin .jsonStringify .undefined [.object ⟨2⟩, .null, .number 2]).outcome
          ⟨{ heap := carriedHeap }, none⟩ = (.ok (.text text), ⟨{ heap := carriedHeap }, none⟩) ∧
        ∀ later : Run, ∃ w h, (callBuiltin .jsonParse .undefined [.text text]).outcome later =
            (.ok w, { later with realm := { later.realm with heap := h } }) ∧
          later.realm.heap.Extends h ∧ carriedHeap.Same (.object ⟨2⟩) h w := by
  refine ⟨portable_carried, ?_⟩
  have hspace : argument [.object ⟨2⟩, .null, .number 2] 2 = .undefined ∨
      ∃ x, argument [.object ⟨2⟩, .null, .number 2] 2 = .number x := .inr ⟨2, rfl⟩
  exact @parse_stringify ⟨{ heap := carriedHeap }, none⟩ [.object ⟨2⟩, .null, .number 2] portable_carried hspace
    .undefined .undefined

end ScriptRepl
