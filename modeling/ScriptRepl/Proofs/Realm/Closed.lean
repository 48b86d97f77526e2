import ScriptRepl.Proofs.Realm.Undisturbed
import ScriptRepl.Realm.Global

/-! Heaps without dangling references. An object keeps its place and its kind for good, so a reference that is good
once stays good. -/
namespace ScriptRepl

/-! ### What a dictionary holds -/

namespace Entries

variable {α : Type} {key : String} {value : α} {es : List (String × α)}

theorem mem_of_mem_put {e : String × α} (he : e ∈ put key value es) : e.2 = value ∨ e ∈ es := by
  induction es with
  | nil =>
      rw [put, List.mem_singleton] at he
      exact .inl (he ▸ rfl)
  | cons first es ih =>
      rw [put] at he
      split at he
      · rcases List.mem_cons.mp he with rfl | he
        · exact .inl rfl
        · exact .inr (List.mem_cons_of_mem _ he)
      · rcases List.mem_cons.mp he with rfl | he
        · exact .inr List.mem_cons_self
        · exact (ih he).imp_right (List.mem_cons_of_mem _)

theorem mem_of_get? (h : get? key es = some value) : (key, value) ∈ es := by
  induction es with
  | nil => cases h
  | cons first es ih =>
      rw [get?] at h
      split at h
      · rename_i hkey
        cases h
        exact hkey ▸ List.mem_cons_self
      · exact List.mem_cons_of_mem _ (ih h)

end Entries

namespace Dict

variable {α : Type} {key : String} {value : α} {d : Dict α}

theorem mem_of_mem_insert {v : α} (hv : v ∈ (d.insert key value).values) : v = value ∨ v ∈ d.values := by
  obtain ⟨e, he, rfl⟩ := List.mem_map.mp hv
  exact (Entries.mem_of_mem_put he).imp_right (List.mem_map_of_mem)

theorem mem_of_get? (h : d.get? key = some value) : value ∈ d.values :=
  List.mem_map_of_mem (f := Prod.snd) (Entries.mem_of_get? h)

theorem mem_of_mem_ofList {es : List (String × α)} {v : α} (hv : v ∈ (ofList es).values) :
    v ∈ es.map Prod.snd := by
  have hfold : ∀ (es : List (String × α)) (d : Dict α),
      v ∈ (es.foldl (fun d e => d.insert e.1 e.2) d).values → v ∈ d.values ∨ v ∈ es.map Prod.snd := by
    intro es
    induction es with
    | nil => exact fun _ => .inl
    | cons e es ih =>
        intro d hv
        rcases ih _ hv with hv | hv
        · rcases mem_of_mem_insert hv with rfl | hv
          · exact .inr List.mem_cons_self
          · exact .inl hv
        · exact .inr (List.mem_cons_of_mem _ hv)
  exact (hfold es {} hv).resolve_left (List.not_mem_nil)

end Dict

/-! ### Objects that keep their kind -/

/-- What an object may become: a function stays as it is, an error keeps its name. -/
inductive Obj.Becomes : Obj → Obj → Prop
  | plain (fields fields' : Dict Value) : Becomes (.plain fields) (.plain fields')
  | list (items items' : Array Value) : Becomes (.list items) (.list items')
  | function (f : Builtin) (self : Option Value) : Becomes (.function f self) (.function f self)
  | error (name message message' : String) : Becomes (.error name message) (.error name message')

namespace Obj.Becomes

theorem refl (o : Obj) : o.Becomes o := by
  cases o with
  | plain fields => exact .plain _ _
  | list items => exact .list _ _
  | function f self => exact .function _ _
  | error name message => exact .error _ _ _

theorem trans {a b c : Obj} (h : a.Becomes b) (g : b.Becomes c) : a.Becomes c := by
  cases h <;> cases g <;> constructor

end Obj.Becomes

/-- Every object of the one heap is at its place in the other and still of its kind. -/
def Heap.Develops (before after : Heap) : Prop :=
  ∀ r o, before.get? r = some o → ∃ o', after.get? r = some o' ∧ o.Becomes o'

namespace Heap.Develops

theorem refl (h : Heap) : h.Develops h := fun _ o hr => ⟨o, hr, .refl o⟩

theorem trans {a b c : Heap} (h : a.Develops b) (g : b.Develops c) : a.Develops c := by
  intro r o hr
  obtain ⟨o', hr', ho'⟩ := h r o hr
  obtain ⟨o'', hr'', ho''⟩ := g r o' hr'
  exact ⟨o'', hr'', ho'.trans ho''⟩

theorem of_extends {a b : Heap} (h : a.Extends b) : a.Develops b := fun r o hr => ⟨o, h r o hr, .refl o⟩

theorem set {h : Heap} {r : Ref} {o o' : Obj} (hr : h.get? r = some o) (ho : o.Becomes o') :
    h.Develops (h.set r o') := by
  intro s o₁ hs
  by_cases hrs : r = s
  · subst hrs
    cases hr.symm.trans hs
    have hlt : r.index < h.objects.size := lt_size_of_get? hr
    exact ⟨o', by simp [Heap.set, get?, hlt], ho⟩
  · have hne : r.index ≠ s.index := fun heq => hrs (by cases r; cases s; simp_all)
    exact ⟨o₁, by simpa [Heap.set, get?, hne] using hs, .refl o₁⟩

theorem size_le {a b : Heap} (h : a.Develops b) : a.size ≤ b.size := by
  refine Nat.le_of_not_lt fun hlt => ?_
  have hlt : b.objects.size < a.objects.size := hlt
  obtain ⟨o, ho, _⟩ := h ⟨b.size⟩ a.objects[b.objects.size] (Array.getElem?_eq_getElem hlt)
  exact absurd (lt_size_of_get? ho) (Nat.lt_irrefl _)

end Heap.Develops

/-! ### References that lead somewhere -/

namespace Value

/-- If the value is a reference, there is an object at its place. -/
def InHeap (h : Heap) : Value → Prop
  | .object r => r.index < h.size
  | _ => True

theorem InHeap.mono {h h' : Heap} {v : Value} (hv : v.InHeap h) (hsize : h.size ≤ h'.size) : v.InHeap h' := by
  cases v with
  | object r => exact Nat.lt_of_lt_of_le hv hsize
  | _ => trivial

/-- Of all the values. -/
def AllInHeap (h : Heap) (vs : List Value) : Prop :=
  ∀ v ∈ vs, v.InHeap h

namespace AllInHeap

theorem mono {h h' : Heap} {vs : List Value} (hvs : AllInHeap h vs) (hsize : h.size ≤ h'.size) : AllInHeap h' vs :=
  fun v hv => (hvs v hv).mono hsize

theorem nil (h : Heap) : AllInHeap h [] := fun _ hv => absurd hv List.not_mem_nil

theorem cons {h : Heap} {v : Value} {vs : List Value} (hv : v.InHeap h) (hvs : AllInHeap h vs) :
    AllInHeap h (v :: vs) :=
  List.forall_mem_cons.mpr ⟨hv, hvs⟩

theorem append {h : Heap} {vs ws : List Value} (hvs : AllInHeap h vs) (hws : AllInHeap h ws) :
    AllInHeap h (vs ++ ws) :=
  List.forall_mem_append.mpr ⟨hvs, hws⟩

theorem subset {h : Heap} {vs ws : List Value} (hvs : AllInHeap h vs) (hsub : ∀ w ∈ ws, w ∈ vs) :
    AllInHeap h ws :=
  fun w hw => hvs w (hsub w hw)

theorem getD {h : Heap} {vs : List Value} (hvs : AllInHeap h vs) (n : Nat) :
    (vs[n]?.getD .undefined).InHeap h := by
  cases hn : vs[n]? with
  | none => trivial
  | some v => exact hvs v (List.mem_of_getElem? hn)

end AllInHeap

end Value

/-- The values that an object is made of. -/
def Obj.parts : Obj → List Value
  | .plain fields => fields.values
  | .list items => items.toList
  | .function _ self => self.toList
  | .error .. => []

/-- No reference in the heap leads out of it. -/
def Heap.Closed (h : Heap) : Prop :=
  ∀ r o, h.get? r = some o → Value.AllInHeap h o.parts

namespace Heap.Closed

variable {h : Heap} {o : Obj}

theorem alloc (hh : h.Closed) (ho : Value.AllInHeap h o.parts) : (h.alloc o).2.Closed := by
  intro r o₁ hr
  have hsize : h.size ≤ (h.alloc o).2.size := by
    rw [size_alloc]
    exact Nat.le_succ _
  by_cases hlt : r.index < h.size
  · rw [get?_alloc_of_lt o hlt] at hr
    exact (hh r o₁ hr).mono hsize
  · have hlast : r.index = h.size := by
      have := lt_size_of_get? hr
      rw [size_alloc] at this
      omega
    rw [Heap.alloc, get?, hlast, Heap.size, Array.getElem?_push_size] at hr
    cases hr
    exact ho.mono hsize

theorem set (hh : h.Closed) (r : Ref) (ho : Value.AllInHeap h o.parts) : (h.set r o).Closed := by
  intro s o₁ hs
  have hsize : h.size ≤ (h.set r o).size := Nat.le_of_eq (size_set h r o).symm
  rw [Heap.set, get?, Array.getElem?_setIfInBounds] at hs
  split at hs
  · split at hs
    · cases hs
      exact ho.mono hsize
    · cases hs
  · exact (hh s o₁ hs).mono hsize

theorem parts (hh : h.Closed) {v : Value} (ho : h.object? v = some o) : Value.AllInHeap h o.parts := by
  cases v with
  | object r => exact hh r o ho
  | _ => cases ho

end Heap.Closed

theorem Heap.inHeap_alloc (h : Heap) (o : Obj) : (h.alloc o).1.InHeap (h.alloc o).2 := by
  change h.size < (h.alloc o).2.size
  rw [size_alloc]
  exact Nat.lt_succ_self _

mutual

theorem Heap.closed_ofJson {h : Heap} (hh : h.Closed) (json : Json) :
    (h.ofJson json).2.Closed ∧ (h.ofJson json).1.InHeap (h.ofJson json).2 := by
  cases json with
  | null => exact ⟨hh, trivial⟩
  | bool b => exact ⟨hh, trivial⟩
  | number n => exact ⟨hh, trivial⟩
  | text s => exact ⟨hh, trivial⟩
  | array items =>
      obtain ⟨hclosed, hitems⟩ := closed_ofJsonItems hh items
      rw [Heap.ofJson]
      exact ⟨hclosed.alloc (hitems.subset fun v hv => by simpa [Obj.parts] using hv), inHeap_alloc _ _⟩
  | object fields =>
      obtain ⟨hclosed, hfields⟩ := closed_ofJsonFields hh fields
      rw [Heap.ofJson]
      exact ⟨hclosed.alloc (hfields.subset fun v hv => Dict.mem_of_mem_ofList hv), inHeap_alloc _ _⟩

theorem Heap.closed_ofJsonItems {h : Heap} (hh : h.Closed) (items : List Json) :
    (h.ofJsonItems items).2.Closed ∧ Value.AllInHeap (h.ofJsonItems items).2 (h.ofJsonItems items).1 := by
  cases items with
  | nil => exact ⟨hh, .nil h⟩
  | cons item items =>
      obtain ⟨hclosed, hv⟩ := closed_ofJson hh item
      obtain ⟨hclosed', hvs⟩ := closed_ofJsonItems hclosed items
      rw [Heap.ofJsonItems]
      exact ⟨hclosed', .cons (hv.mono (Heap.Develops.of_extends (extends_ofJsonItems _ items)).size_le) hvs⟩

theorem Heap.closed_ofJsonFields {h : Heap} (hh : h.Closed) (fields : List (String × Json)) :
    (h.ofJsonFields fields).2.Closed ∧
      Value.AllInHeap (h.ofJsonFields fields).2 ((h.ofJsonFields fields).1.map Prod.snd) := by
  cases fields with
  | nil => exact ⟨hh, .nil h⟩
  | cons field fields =>
      obtain ⟨hclosed, hv⟩ := closed_ofJson hh field.2
      obtain ⟨hclosed', hvs⟩ := closed_ofJsonFields hclosed fields
      rw [Heap.ofJsonFields]
      exact ⟨hclosed', .cons (hv.mono (Heap.Develops.of_extends (extends_ofJsonFields _ fields)).size_le) hvs⟩

end

/-- No reference that a program can get hold of leads out of the heap. -/
structure Realm.Closed (realm : Realm) : Prop where
  heap : realm.heap.Closed
  globals : ∀ b ∈ realm.globals.values, b.value.InHeap realm.heap

namespace Realm.Closed

variable {realm : Realm}

theorem develop (hrealm : realm.Closed) {h : Heap} (hdevelops : realm.heap.Develops h) (hh : h.Closed) :
    Realm.Closed { realm with heap := h } :=
  ⟨hh, fun b hb => (hrealm.globals b hb).mono hdevelops.size_le⟩

theorem alloc (hrealm : realm.Closed) {o : Obj} (ho : Value.AllInHeap realm.heap o.parts) :
    Realm.Closed { realm with heap := (realm.heap.alloc o).2 } :=
  hrealm.develop (.of_extends (.alloc _ _)) (hrealm.heap.alloc ho)

theorem bind (hrealm : realm.Closed) {name : String} {b : Binding} (hb : b.value.InHeap realm.heap) :
    Realm.Closed { realm with globals := realm.globals.insert name b } := by
  refine ⟨hrealm.heap, fun b' hb' => ?_⟩
  rcases Dict.mem_of_mem_insert hb' with rfl | hb'
  · exact hb
  · exact hrealm.globals b' hb'

end Realm.Closed

/-! ### The realm that everything starts from -/

namespace Realm

theorem closed_addFunctions {realm : Realm} (hrealm : realm.Closed) (fs : List Builtin) :
    (realm.addFunctions fs).2.Closed ∧
      Value.AllInHeap (realm.addFunctions fs).2.heap ((realm.addFunctions fs).1.map Prod.snd) ∧
      realm.heap.size ≤ (realm.addFunctions fs).2.heap.size := by
  induction fs generalizing realm with
  | nil => exact ⟨hrealm, .nil _, Nat.le_refl _⟩
  | cons f fs ih =>
      obtain ⟨hclosed, hvs, hsize⟩ := ih (hrealm.alloc (o := .function f none) (.nil _))
      refine ⟨hclosed, .cons ((Heap.inHeap_alloc _ _).mono hsize) hvs, Nat.le_trans ?_ hsize⟩
      exact (Heap.Develops.of_extends (.alloc _ _)).size_le

theorem closed_defineNamespace {realm : Realm} (hrealm : realm.Closed) (name : String) (fs : List Builtin)
    {constants : List (String × Value)}
    (hconstants : ∀ h, Value.AllInHeap h (constants.map Prod.snd)) :
    (realm.defineNamespace name fs constants).Closed := by
  obtain ⟨hclosed, hvs, _⟩ := closed_addFunctions hrealm fs
  refine (hclosed.alloc (o := .plain (Dict.ofList _)) fun v hv => ?_).bind (Heap.inHeap_alloc _ _)
  have hv := Dict.mem_of_mem_ofList hv
  rw [List.map_append] at hv
  exact hvs.append (hconstants _) v hv

theorem closed_defineFunctions {realm : Realm} (hrealm : realm.Closed) (fs : List Builtin) :
    (fs.foldl defineFunction realm).Closed := by
  induction fs generalizing realm with
  | nil => exact hrealm
  | cons f fs ih => exact ih ((hrealm.alloc (o := .function f none) (.nil _)).bind (Heap.inHeap_alloc _ _))

theorem closed_fresh (seed : UInt64) : (Realm.fresh seed).Closed := by
  have hempty : Realm.Closed { random := seed } :=
    ⟨fun r o hr => absurd (Heap.lt_size_of_get? hr) (Nat.not_lt_zero _), fun b hb => absurd hb List.not_mem_nil⟩
  have hnone : ∀ h, Value.AllInHeap h (List.map Prod.snd ([] : List (String × Value))) := .nil
  have hnumbers : ∀ h, Value.AllInHeap h (List.map Prod.snd [("PI", .number pi), ("E", .number e)]) :=
    fun h => .cons (v := .number _) trivial (.cons (v := .number _) trivial (.nil h))
  have hmath := closed_defineNamespace hempty "Math" mathFunctions hnumbers
  have hjson := closed_defineNamespace hmath "JSON" [.jsonStringify, .jsonParse] hnone
  have hobject := closed_defineNamespace hjson "Object" [.fields .keys, .fields .values, .fields .entries] hnone
  have harray := closed_defineNamespace hobject "Array" [.isArray] hnone
  have hconsole := closed_defineNamespace harray "console" [.consoleLog, .consoleError] hnone
  have hfunctions := closed_defineFunctions hconsole
    [.toText, .toNumber, .toBoolean, .parseInt, .parseFloat, .isNaN, .isFinite]
  exact (hfunctions.bind (b := ⟨.number Number.nan, .varKind⟩) trivial).bind
    (b := ⟨.number Number.infinity, .varKind⟩) trivial

end Realm

end ScriptRepl
