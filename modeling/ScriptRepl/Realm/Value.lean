import ScriptRepl.Dict
import ScriptRepl.Realm.Builtin

/-! Values and the heap they refer to. Objects are only ever added at the end of the heap, so a reference stays
good once its object is there. -/
namespace ScriptRepl

structure Ref where
  index : Nat
  deriving DecidableEq, Repr

inductive Value where
  | undefined
  | null
  | bool (b : Bool)
  | number (x : Float)
  | text (s : String)
  | object (r : Ref)

instance : Inhabited Value := ⟨.undefined⟩

def Value.isNullish : Value → Bool
  | .undefined => true
  | .null => true
  | _ => false

inductive Obj where
  | plain (fields : Dict Value)
  | list (items : Array Value)
  /-- A native function, with the value it was read off as a method. -/
  | function (f : Builtin) (self : Option Value)
  | error (name message : String)

structure Heap where
  objects : Array Obj := #[]

namespace Heap

def size (h : Heap) : Nat :=
  h.objects.size

def get? (h : Heap) (r : Ref) : Option Obj :=
  h.objects[r.index]?

def object? (h : Heap) : Value → Option Obj
  | .object r => h.get? r
  | _ => none

/-- Adds an object; the value refers to it. -/
def alloc (h : Heap) (o : Obj) : Value × Heap :=
  (.object ⟨h.size⟩, ⟨h.objects.push o⟩)

def set (h : Heap) (r : Ref) (o : Obj) : Heap :=
  ⟨h.objects.setIfInBounds r.index o⟩

theorem size_alloc (h : Heap) (o : Obj) : (h.alloc o).2.size = h.size + 1 := by
  simp [alloc, size]

theorem size_set (h : Heap) (r : Ref) (o : Obj) : (h.set r o).size = h.size := by
  simp [set, size]

theorem get?_alloc_of_lt {h : Heap} {r : Ref} (o : Obj) (hr : r.index < h.size) :
    (h.alloc o).2.get? r = h.get? r := by
  simp [alloc, get?, Array.getElem?_push, Nat.ne_of_lt (show r.index < h.objects.size from hr)]

theorem lt_size_of_get? {h : Heap} {r : Ref} {o : Obj} (hr : h.get? r = some o) : r.index < h.size := by
  have := (Array.getElem?_eq_some_iff.1 hr).1
  exact this

/-- How many objects a path has not yet gone through: the measure by which walks along references end. -/
def unseen (h : Heap) (path : List Ref) : Nat :=
  (List.range h.size).countP fun n => !path.contains ⟨n⟩

theorem unseen_cons_lt {h : Heap} {path : List Ref} {r : Ref} (hr : r.index < h.size)
    (hn : path.contains r = false) : h.unseen (r :: path) < h.unseen path := by
  have hsplit : List.range h.size =
      List.range r.index ++ r.index :: (List.range' (r.index + 1) (h.size - r.index - 1)) := by
    have happend := @List.range'_append_1 0 r.index (h.size - r.index - 1 + 1)
    rw [Nat.zero_add, List.range'_succ, show r.index + (h.size - r.index - 1 + 1) = h.size by omega] at happend
    rw [List.range_eq_range', List.range_eq_range', happend]
  have hle (ns : List Nat) :
      ns.countP (fun n => !(r :: path).contains ⟨n⟩) ≤ ns.countP fun n => !path.contains ⟨n⟩ := by
    apply List.countP_mono_left
    intro n _ h'
    simp only [List.contains_cons, Bool.not_or, Bool.and_eq_true] at h'
    exact h'.2
  have h1 := hle (List.range r.index)
  have h2 := hle (List.range' (r.index + 1) (h.size - r.index - 1))
  unfold unseen
  rw [hsplit]
  simp only [List.countP_append, List.countP_cons, List.contains_cons, BEq.rfl, Bool.true_or, Bool.not_true,
    hn, Bool.not_false, if_true]
  simp only [List.contains_cons] at h1 h2
  simp only [Bool.false_eq_true, if_false]
  omega

end Heap

end ScriptRepl
