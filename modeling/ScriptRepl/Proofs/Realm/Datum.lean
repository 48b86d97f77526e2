import Mathlib.Data.List.Forall2
import ScriptRepl.Proofs.Realm.Undisturbed

/-! Data: what values are built from, without the references by which a heap holds them. -/
namespace ScriptRepl

theorem forall₂_of_mem {α β : Type} {R S : α → β → Prop} {as : List α} {bs : List β} (h : List.Forall₂ R as bs)
    (himp : ∀ a ∈ as, ∀ b, R a b → S a b) : List.Forall₂ S as bs :=
  ((List.forall₂_and_left as bs).mpr ⟨himp, h⟩).imp fun _ b hab => hab.1 b hab.2

inductive Datum where
  | undefined
  | null
  | bool (b : Bool)
  | number (x : Float)
  | text (s : String)
  | list (items : List Datum)
  | record (fields : List (String × Datum))

namespace Datum

theorem sizeOf_item {items : List Datum} {d : Datum} (hd : d ∈ items) : sizeOf d < sizeOf (Datum.list items) := by
  have hlt := List.sizeOf_lt_of_mem hd
  rw [Datum.list.sizeOf_spec]
  omega

theorem sizeOf_field {fields : List (String × Datum)} {d : Datum} (hd : d ∈ fields.map Prod.snd) :
    sizeOf d < sizeOf (Datum.record fields) := by
  obtain ⟨⟨key, d⟩, hfield, rfl⟩ := List.mem_map.mp hd
  have hlt := List.sizeOf_lt_of_mem hfield
  rw [Prod.mk.sizeOf_spec] at hlt
  rw [Datum.record.sizeOf_spec]
  dsimp only
  omega

theorem induction {P : Datum → Prop} (undefined : P .undefined) (null : P .null) (bool : ∀ b, P (.bool b))
    (number : ∀ x, P (.number x)) (text : ∀ s, P (.text s)) (list : ∀ items, (∀ d ∈ items, P d) → P (.list items))
    (record : ∀ fields : List (String × Datum), (∀ d ∈ fields.map Prod.snd, P d) → P (.record fields)) (d : Datum) :
    P d := by
  induction hn : sizeOf d using Nat.strongRecOn generalizing d with
  | ind n ih =>
      cases d with
      | undefined => exact undefined
      | null => exact null
      | bool b => exact bool b
      | number x => exact number x
      | text s => exact text s
      | list items => exact list items fun d hd => ih (sizeOf d) (hn ▸ sizeOf_item hd) d rfl
      | record fields => exact record fields fun d hd => ih (sizeOf d) (hn ▸ sizeOf_field hd) d rfl

/-- No list has more than a hundred items, and what is not empty lies within so many levels of lists and records. -/
def Fits : (levels : Nat) → Datum → Prop
  | 0, .list items => items = []
  | 0, .record fields => fields = []
  | levels + 1, .list items => items.length ≤ 100 ∧ ∀ d ∈ items, d.Fits levels
  | levels + 1, .record fields => ∀ d ∈ fields.map Prod.snd, d.Fits levels
  | _, _ => True

/-- The number is part of the datum. -/
inductive Contains (x : Float) : Datum → Prop where
  | number : Contains x (.number x)
  | item {items : List Datum} {d : Datum} (hd : d ∈ items) (h : Contains x d) : Contains x (.list items)
  | field {fields : List (String × Datum)} {d : Datum} (hd : d ∈ fields.map Prod.snd) (h : Contains x d) :
    Contains x (.record fields)

end Datum

namespace Heap

/-- What a value is, with all that it refers to. -/
inductive Represents (h : Heap) : Datum → Value → Prop where
  | undefined : Represents h .undefined .undefined
  | null : Represents h .null .null
  | bool (b : Bool) : Represents h (.bool b) (.bool b)
  | number (x : Float) : Represents h (.number x) (.number x)
  | text (s : String) : Represents h (.text s) (.text s)
  | list {r : Ref} {ds : List Datum} {items : Array Value} (hr : h.get? r = some (.list items))
      (hitems : List.Forall₂ (Represents h) ds items.toList) : Represents h (.list ds) (.object r)
  | record {r : Ref} {ds : List (String × Datum)} {fields : Dict Value} (hr : h.get? r = some (.plain fields))
      (hkeys : ds.map Prod.fst = fields.keys)
      (hvalues : List.Forall₂ (Represents h) (ds.map Prod.snd) fields.values) : Represents h (.record ds) (.object r)

namespace Represents

variable {h h' : Heap} {d d' : Datum} {v : Value}

theorem mono (hd : h.Represents d v) (hext : h.Extends h') : h'.Represents d v := by
  induction d using Datum.induction generalizing v with
  | undefined =>
      cases hd
      exact .undefined
  | null =>
      cases hd
      exact .null
  | bool b =>
      cases hd
      exact .bool b
  | number x =>
      cases hd
      exact .number x
  | text s =>
      cases hd
      exact .text s
  | list ds ih =>
      cases hd with
      | list hr hitems =>
          exact .list (hext _ _ hr) (forall₂_of_mem hitems fun d hd v => ih d hd)
  | record ds ih =>
      cases hd with
      | record hr hkeys hvalues =>
          exact .record (hext _ _ hr) hkeys (forall₂_of_mem hvalues fun d hd v => ih d hd)

theorem forall₂_eq {ds ds' : List Datum} {vs : List Value}
    (ih : ∀ d ∈ ds, ∀ {d' v}, h.Represents d v → h.Represents d' v → d = d') (hds : List.Forall₂ h.Represents ds vs)
    (hds' : List.Forall₂ h.Represents ds' vs) : ds = ds' := by
  induction hds generalizing ds' with
  | nil =>
      cases hds'
      rfl
  | cons hd _ ihds =>
      cases hds' with
      | cons hd' hrest =>
          rw [ih _ List.mem_cons_self hd hd', ihds (fun d hd => ih d (List.mem_cons_of_mem _ hd)) hrest]

/-- A value is one datum. -/
theorem unique (hd : h.Represents d v) (hd' : h.Represents d' v) : d = d' := by
  induction d using Datum.induction generalizing v d' with
  | undefined =>
      cases hd
      cases hd'
      rfl
  | null =>
      cases hd
      cases hd'
      rfl
  | bool b =>
      cases hd
      cases hd'
      rfl
  | number x =>
      cases hd
      cases hd'
      rfl
  | text s =>
      cases hd
      cases hd'
      rfl
  | list ds ih =>
      cases hd with
      | list hr hitems =>
          cases hd' with
          | list hr' hitems' =>
              cases hr.symm.trans hr'
              rw [forall₂_eq ih hitems hitems']
          | record hr' _ _ => cases hr.symm.trans hr'
  | record ds ih =>
      cases hd with
      | record hr hkeys hvalues =>
          cases hd' with
          | list hr' _ => cases hr.symm.trans hr'
          | record hr' hkeys' hvalues' =>
              cases hr.symm.trans hr'
              have hsnd := forall₂_eq ih hvalues hvalues'
              have hfst := hkeys.trans hkeys'.symm
              rw [← List.zip_unzip ds, List.unzip_eq_map, hfst, hsnd, ← List.unzip_eq_map, List.zip_unzip]

end Represents

end Heap

end ScriptRepl
