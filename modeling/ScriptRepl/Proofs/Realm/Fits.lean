import ScriptRepl.Proofs.Json.Within
import ScriptRepl.Proofs.Number.Length
import ScriptRepl.Proofs.Realm.Declared

/-! Texts that are no longer than a text may get by repetition. Only repetition looks at the length of what it builds;
here is what all the other natives and properties give, from values that are not too long, without a look at it. -/
namespace ScriptRepl

open Eval

/-- The text takes no more bytes than a script may build by repetition. -/
def TextFits (s : String) : Prop :=
  s.utf8ByteSize ≤ maxTextBytes

instance (s : String) : Decidable (TextFits s) :=
  inferInstanceAs (Decidable (_ ≤ _))

namespace TextFits

theorem of_length {s : String} (h : s.toList.length ≤ 2000) : TextFits s := by
  have hsize := Text.size_le_length s.toList
  have hmax : 8000 ≤ maxTextBytes := by decide
  rw [Text.size_toList] at hsize
  unfold TextFits
  omega

theorem of_sublist {s : String} {cs : List Char} (hs : TextFits s) (h : cs.Sublist s.toList) :
    TextFits (String.ofList cs) := by
  have hsize := Text.size_le_of_sublist h
  rw [Text.size_toList] at hsize
  unfold TextFits at hs ⊢
  rw [Text.utf8ByteSize_ofList]
  exact Nat.le_trans hsize hs

theorem of_char {s : String} {c : Char} (hs : TextFits s) (h : c ∈ s.toList) : TextFits c.toString :=
  hs.of_sublist (List.singleton_sublist.mpr h)

theorem spell (x : Float) : TextFits (Number.spell x) :=
  .of_length (Number.length_spell x)

theorem name (f : Builtin) : TextFits f.name := by
  cases f with
  | math op => cases op <;> decide
  | text op => cases op <;> decide
  | list op => cases op <;> decide
  | fields part => cases part <;> decide
  | _ => decide

end TextFits

namespace Value

/-- A text is not too long. -/
def Fits : Value → Prop
  | .text s => TextFits s
  | .undefined | .null | .bool _ | .number _ | .object _ => True

def isObject : Value → Bool
  | .object _ => true
  | .undefined | .null | .bool _ | .number _ | .text _ => false

/-- Of all the values. -/
def AllFit (vs : List Value) : Prop :=
  ∀ v ∈ vs, v.Fits

theorem AllFit.getD {vs : List Value} (hvs : AllFit vs) (n : Nat) : (vs[n]?.getD .undefined).Fits := by
  cases hn : vs[n]? with
  | none => trivial
  | some v => exact hvs v (List.mem_of_getElem? hn)

theorem AllFit.getD_of_option {v? : Option Value} (h : AllFit v?.toList) : (v?.getD .undefined).Fits := by
  cases v? with
  | none => trivial
  | some v => exact h v (List.mem_singleton.mpr rfl)

end Value

/-- The text of anything but an object. -/
theorem Heap.textFits_display (h : Heap) {v : Value} (hv : v.Fits) (hplain : v.isObject = false) :
    TextFits (h.display v) := by
  unfold display
  cases v with
  | undefined => rw [displayAt]; decide
  | null => rw [displayAt]; decide
  | bool b => cases b <;> rw [displayAt] <;> decide
  | number x =>
      rw [displayAt]
      exact .spell x
  | text s =>
      rw [displayAt]
      exact hv
  | object r => cases hplain

/-! ### Objects, heaps and realms -/

/-- The values that an object is made of and the name of an error are not too long; a method of texts remembers a text.
-/
structure Obj.Fits (o : Obj) : Prop where
  parts : Value.AllFit o.parts
  name : ∀ name message, o = .error name message → TextFits name
  receiver : ∀ op self, o = .function (.text op) self → ∃ s, self = some (.text s)

namespace Obj.Fits

theorem plain {fields : Dict Value} (h : Value.AllFit fields.values) : (Obj.plain fields).Fits :=
  ⟨h, nofun, nofun⟩

theorem list {items : Array Value} (h : Value.AllFit items.toList) : (Obj.list items).Fits :=
  ⟨h, nofun, nofun⟩

theorem error {name message : String} (h : TextFits name) : (Obj.error name message).Fits :=
  ⟨nofun, by rintro _ _ ⟨⟩; exact h, nofun⟩

theorem function {f : Builtin} {self : Option Value} (hself : Value.AllFit self.toList)
    (h : ∀ op, f = .text op → ∃ s, self = some (.text s)) : (Obj.function f self).Fits :=
  ⟨hself, nofun, by rintro op _ ⟨⟩; exact h op rfl⟩

theorem write {o o' : Obj} {key : String} {v : Value} (ho : o.Fits) (hv : v.Fits) (h : o.write? key v = some o') :
    o'.Fits := by
  obtain ⟨hkind, hparts⟩ := Obj.write?_eq_some h
  have hparts' : Value.AllFit o'.parts := by
    intro w hw
    rcases hparts w hw with rfl | rfl | hw
    · trivial
    · exact hv
    · exact ho.parts w hw
  cases hkind with
  | plain => exact .plain hparts'
  | list => exact .list hparts'
  | function => exact ho
  | error name message => exact .error (ho.name name message rfl)

end Obj.Fits

namespace Heap

variable {h : Heap} {o : Obj}

def Fits (h : Heap) : Prop :=
  ∀ r o, h.get? r = some o → o.Fits

theorem Fits.alloc (hh : h.Fits) (ho : o.Fits) : (h.alloc o).2.Fits := by
  intro r o₁ hr
  by_cases hlt : r.index < h.size
  · rw [get?_alloc_of_lt o hlt] at hr
    exact hh r o₁ hr
  · have hlast : r.index = h.size := by
      have hbound := lt_size_of_get? hr
      rw [size_alloc] at hbound
      omega
    rw [Heap.alloc, get?, hlast, Heap.size, Array.getElem?_push_size] at hr
    cases hr
    exact ho

theorem Fits.set (hh : h.Fits) (r : Ref) (ho : o.Fits) : (h.set r o).Fits := by
  intro s o₁ hs
  rw [Heap.set, get?, Array.getElem?_setIfInBounds] at hs
  split at hs
  · split at hs
    · cases hs
      exact ho
    · cases hs
  · exact hh s o₁ hs

theorem Fits.object (hh : h.Fits) {v : Value} (ho : h.object? v = some o) : o.Fits := by
  cases v with
  | object r => exact hh r o ho
  | _ => cases ho

variable {n : Nat}

mutual

theorem fits_ofJson {h : Heap} (hh : h.Fits) (hn : n ≤ maxTextBytes) {json : Json} (hjson : json.TextsWithin n) :
    (h.ofJson json).2.Fits ∧ (h.ofJson json).1.Fits := by
  cases json with
  | null => exact ⟨hh, trivial⟩
  | bool b => exact ⟨hh, trivial⟩
  | number n => exact ⟨hh, trivial⟩
  | text s => exact ⟨hh, Nat.le_trans hjson hn⟩
  | array items =>
      obtain ⟨hfits, hitems⟩ := fits_ofJsonItems hh hn items hjson
      rw [Heap.ofJson]
      exact ⟨hfits.alloc (.list (by simpa using hitems)), trivial⟩
  | object fields =>
      obtain ⟨hfits, hfields⟩ := fits_ofJsonFields hh hn fields hjson
      rw [Heap.ofJson]
      exact ⟨hfits.alloc (.plain fun v hv => hfields v (Dict.mem_of_mem_ofList hv)), trivial⟩

theorem fits_ofJsonItems {h : Heap} (hh : h.Fits) (hn : n ≤ maxTextBytes) (items : List Json)
    (hitems : Json.ItemsWithin n items) :
    (h.ofJsonItems items).2.Fits ∧ Value.AllFit (h.ofJsonItems items).1 := by
  cases items with
  | nil => exact ⟨hh, nofun⟩
  | cons item items =>
      obtain ⟨hfits, hv⟩ := fits_ofJson hh hn hitems.1
      obtain ⟨hfits', hvs⟩ := fits_ofJsonItems hfits hn items hitems.2
      rw [Heap.ofJsonItems]
      exact ⟨hfits', List.forall_mem_cons.mpr ⟨hv, hvs⟩⟩

theorem fits_ofJsonFields {h : Heap} (hh : h.Fits) (hn : n ≤ maxTextBytes) (fields : List (String × Json))
    (hfields : Json.FieldsWithin n fields) :
    (h.ofJsonFields fields).2.Fits ∧ Value.AllFit ((h.ofJsonFields fields).1.map Prod.snd) := by
  cases fields with
  | nil => exact ⟨hh, nofun⟩
  | cons field fields =>
      obtain ⟨hfits, hv⟩ := fits_ofJson hh hn hfields.1
      obtain ⟨hfits', hvs⟩ := fits_ofJsonFields hfits hn fields hfields.2
      rw [Heap.ofJsonFields]
      exact ⟨hfits', List.forall_mem_cons.mpr ⟨hv, hvs⟩⟩

end

end Heap

/-- No text that is stored in a global name or in an object, or that a method remembers, is too long. -/
structure Realm.Fits (realm : Realm) : Prop where
  heap : realm.heap.Fits
  globals : ∀ b ∈ realm.globals.values, b.value.Fits

namespace Realm

variable {realm : Realm}

theorem Fits.withHeap (hrealm : realm.Fits) {h : Heap} (hh : h.Fits) : Realm.Fits { realm with heap := h } :=
  ⟨hh, hrealm.globals⟩

theorem Fits.bind (hrealm : realm.Fits) {name : String} {b : Binding} (hb : b.value.Fits) :
    Realm.Fits { realm with globals := realm.globals.insert name b } := by
  refine ⟨hrealm.heap, fun b' hb' => ?_⟩
  rcases Dict.mem_of_mem_insert hb' with rfl | hb'
  · exact hb
  · exact hrealm.globals b' hb'

/-- None of the natives is a method of texts. -/
def Receiverless (fs : List Builtin) : Prop :=
  ∀ f ∈ fs, ∀ op, f ≠ .text op

theorem Fits.addFunction (hrealm : realm.Fits) {f : Builtin} (hf : ∀ op, f ≠ .text op) :
    (realm.addFunction f).2.Fits :=
  hrealm.withHeap (hrealm.heap.alloc (.function nofun fun op heq => absurd heq (hf op)))

theorem fits_addFunctions (hrealm : realm.Fits) {fs : List Builtin} (hfs : Receiverless fs) :
    (realm.addFunctions fs).2.Fits ∧ Value.AllFit ((realm.addFunctions fs).1.map Prod.snd) := by
  induction fs generalizing realm with
  | nil => exact ⟨hrealm, nofun⟩
  | cons f fs ih =>
      obtain ⟨hf, hrest⟩ := List.forall_mem_cons.mp hfs
      obtain ⟨hfits, hvs⟩ := ih (hrealm.addFunction hf) hrest
      exact ⟨hfits, List.forall_mem_cons.mpr ⟨trivial, hvs⟩⟩

theorem fits_defineNamespace (hrealm : realm.Fits) (name : String) (fs : List Builtin)
    (constants : List (String × Value)) (hfs : Receiverless fs) (hconstants : Value.AllFit (constants.map Prod.snd)) :
    (realm.defineNamespace name fs constants).Fits := by
  obtain ⟨hfits, hvs⟩ := fits_addFunctions hrealm hfs
  have hfields : Value.AllFit (Dict.ofList ((realm.addFunctions fs).1 ++ constants)).values := by
    intro v hv
    have hv := Dict.mem_of_mem_ofList hv
    rw [List.map_append, List.mem_append] at hv
    exact hv.elim (hvs v) (hconstants v)
  exact (hfits.withHeap (hfits.heap.alloc (.plain hfields))).bind (b := ⟨_, .varKind⟩) trivial

theorem fits_defineFunctions (hrealm : realm.Fits) (fs : List Builtin) (hfs : Receiverless fs) :
    (fs.foldl defineFunction realm).Fits := by
  induction fs generalizing realm with
  | nil => exact hrealm
  | cons f fs ih =>
      obtain ⟨hf, hrest⟩ := List.forall_mem_cons.mp hfs
      exact ih ((hrealm.addFunction hf).bind (b := ⟨_, .varKind⟩) trivial) hrest

theorem fits_fresh (seed : UInt64) : (Realm.fresh seed).Fits := by
  have hempty : Realm.Fits { random := seed } :=
    ⟨fun r o hr => absurd (Heap.lt_size_of_get? hr) (Nat.not_lt_zero _), nofun⟩
  have hmath := fits_defineNamespace hempty "Math" mathFunctions [("PI", .number pi), ("E", .number e)]
    (by simp [Receiverless, mathFunctions]) (by simp [Value.AllFit, Value.Fits])
  have hjson := fits_defineNamespace hmath "JSON" [.jsonStringify, .jsonParse] [] (by simp [Receiverless]) nofun
  have hobject := fits_defineNamespace hjson "Object" [.fields .keys, .fields .values, .fields .entries] []
    (by simp [Receiverless]) nofun
  have harray := fits_defineNamespace hobject "Array" [.isArray] [] (by simp [Receiverless]) nofun
  have hconsole := fits_defineNamespace harray "console" [.consoleLog, .consoleError] [] (by simp [Receiverless]) nofun
  have hfunctions := fits_defineFunctions hconsole
    [.toText, .toNumber, .toBoolean, .parseInt, .parseFloat, .isNaN, .isFinite] (by simp [Receiverless])
  exact (hfunctions.bind (b := ⟨.number Number.nan, .varKind⟩) trivial).bind
    (b := ⟨.number Number.infinity, .varKind⟩) trivial

end Realm

end ScriptRepl
