/-! Finite maps with text keys that remember the order in which the keys came. -/
namespace ScriptRepl

namespace Entries

variable {α : Type}

/-- Sets the value of a key: in its place if it is there, at the end if it is new. -/
def put (key : String) (value : α) : List (String × α) → List (String × α)
  | [] => [(key, value)]
  | (k, v) :: rest => if k = key then (k, value) :: rest else (k, v) :: put key value rest

def get? (key : String) : List (String × α) → Option α
  | [] => none
  | (k, v) :: rest => if k = key then some v else get? key rest

theorem keys_put (key : String) (value : α) (es : List (String × α)) :
    (put key value es).map Prod.fst =
      if key ∈ es.map Prod.fst then es.map Prod.fst else es.map Prod.fst ++ [key] := by
  induction es with
  | nil => simp [put]
  | cons e es ih =>
    obtain ⟨k, v⟩ := e
    by_cases h : k = key
    · simp [put, h]
    · have h' : key ≠ k := fun e => h e.symm
      simp only [put, if_neg h, List.map_cons, ih, List.mem_cons, h', false_or]
      split <;> simp

theorem nodup_put (key : String) (value : α) {es : List (String × α)} (h : (es.map Prod.fst).Nodup) :
    ((put key value es).map Prod.fst).Nodup := by
  rw [keys_put]
  split
  · exact h
  · rename_i hk
    rw [List.nodup_append]
    exact ⟨h, by simp, fun a ha b hb => by rintro rfl; simp_all⟩

theorem get?_put_self (key : String) (value : α) (es : List (String × α)) :
    get? key (put key value es) = some value := by
  induction es with
  | nil => simp [put, get?]
  | cons e es ih => by_cases h : e.1 = key <;> simp [put, get?, h, ih]

theorem get?_put_of_ne {key other : String} (h : other ≠ key) (value : α) (es : List (String × α)) :
    get? other (put key value es) = get? other es := by
  induction es with
  | nil => simp [put, get?, h.symm]
  | cons e es ih =>
    by_cases hk : e.1 = key
    · have : e.1 ≠ other := fun e' => h (e'.symm.trans hk)
      simp [put, get?, hk, h.symm]
    · simp [put, get?, hk, ih]

end Entries

/-- Keys are unique and stay in the order of their first appearance. -/
structure Dict (α : Type) where
  entries : List (String × α) := []
  nodup : (entries.map Prod.fst).Nodup := by simp

namespace Dict

variable {α : Type}

instance : Inhabited (Dict α) := ⟨{}⟩

def get? (d : Dict α) (key : String) : Option α :=
  Entries.get? key d.entries

def contains (d : Dict α) (key : String) : Bool :=
  (d.get? key).isSome

def insert (d : Dict α) (key : String) (value : α) : Dict α :=
  ⟨Entries.put key value d.entries, Entries.nodup_put key value d.nodup⟩

def keys (d : Dict α) : List String :=
  d.entries.map Prod.fst

def values (d : Dict α) : List α :=
  d.entries.map Prod.snd

def ofList (es : List (String × α)) : Dict α :=
  es.foldl (fun d e => d.insert e.1 e.2) {}

def isEmpty (d : Dict α) : Bool :=
  d.entries.isEmpty

@[simp] theorem get?_insert_self (d : Dict α) (key : String) (value : α) :
    (d.insert key value).get? key = some value :=
  Entries.get?_put_self key value d.entries

theorem get?_insert_of_ne (d : Dict α) {key other : String} (h : other ≠ key) (value : α) :
    (d.insert key value).get? other = d.get? other :=
  Entries.get?_put_of_ne h value d.entries

end Dict

end ScriptRepl
