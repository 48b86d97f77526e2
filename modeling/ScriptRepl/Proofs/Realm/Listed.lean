import ScriptRepl.Proofs.Number.Digits
import ScriptRepl.Proofs.Text.Name
import ScriptRepl.Realm.Property

/-! The names that are listed for a value and the properties that are read on it come from tables of their own; a
listed name that is spelled as a name is found. -/
namespace ScriptRepl

/-- There is something to read: a stored value or a method. -/
def Found.isPresent : Found → Bool
  | .stored _ => true
  | .method f => f.isSome

theorem index?_of_isName {s : String} (h : Text.isName s = true) : index? s = none := by
  have hstart := Text.isNameStart_of_isName h
  cases hchars : s.toList with
  | nil => simp [index?, hchars]
  | cons c cs =>
      rw [hchars] at hstart
      have hc := hstart c rfl
      have hplus : c ≠ '+' := by
        rintro rfl
        revert hc
        decide
      simp [index?, hchars, hplus, Text.isDigit_of_isNameStart hc]

/-- A place in a list is no name. -/
theorem not_isName_toString (n : Nat) : Text.isName (toString n) = false := by
  by_contra h
  have hstart := Text.isNameStart_of_isName (eq_true_of_ne_false h)
  obtain ⟨c, cs, hdigits, hc, -⟩ := Number.exists_cons_toDigits n
  have hchars : (toString n).toList = c :: cs := String.toList_ofList.trans hdigits
  rw [hchars] at hstart
  rw [Text.isDigit_of_isNameStart (hstart c rfl)] at hc
  cases hc

theorem isPresent_lookup {table : List (String × Builtin)} {name : String} (h : name ∈ table.map Prod.fst) :
    (Found.method (table.lookup name)).isPresent = true := by
  obtain ⟨entry, hentry, rfl⟩ := List.mem_map.mp h
  exact List.lookup_isSome_iff.mpr ⟨entry, hentry, by simp⟩

theorem Entries.isSome_get? {α : Type} {es : List (String × α)} {name : String} (h : name ∈ es.map Prod.fst) :
    ∃ v, get? name es = some v := by
  induction es with
  | nil => cases h
  | cons entry es ih =>
      obtain ⟨key, value⟩ := entry
      rw [get?]
      split
      · exact ⟨value, rfl⟩
      · rename_i hne
        exact ih ((List.mem_cons.mp h).resolve_left fun heq => hne heq.symm)

namespace Heap

theorem listed_of_object {h : Heap} {r : Ref} {name : String} (hname : Text.isName name = true)
    (hlisted : name ∈ (h.propertyNames (.object r)).map Prod.fst) :
    (objectProperty ((h.get? r).getD (.plain {})) name).isPresent = true := by
  unfold propertyNames at hlisted
  dsimp only at hlisted
  generalize (h.get? r).getD (.plain {}) = o at hlisted
  cases o with
  | plain fields =>
      simp only [List.map_append, List.mem_append, List.map_map] at hlisted
      rcases hlisted with hown | hmethod
      · have hkey : name ∈ fields.entries.map Prod.fst := by simpa [Dict.keys] using hown
        obtain ⟨v, hv⟩ := Entries.isSome_get? hkey
        have hget : fields.get? name = some v := hv
        rw [objectProperty, hget]
        rfl
      · rw [objectProperty]
        split
        · rfl
        · exact isPresent_lookup (by simpa using hmethod)
  | list items =>
      rw [objectProperty]
      split
      · rfl
      · rename_i hlength
        rw [index?_of_isName hname]
        have hplace : ∀ n < items.size, toString n ≠ name := by
          rintro n - rfl
          rw [not_isName_toString] at hname
          cases hname
        refine isPresent_lookup ?_
        simp only [List.map_append, List.map_map, List.mem_append, List.map_cons, List.mem_map,
          List.mem_range] at hlisted
        rcases hlisted with (⟨n, hn, heq⟩ | hown) | hmethod
        · exact absurd heq (hplace n hn)
        · exact absurd (by simpa using hown) hlength
        · simpa using hmethod
  | function f self =>
      rw [objectProperty]
      split
      · rfl
      split
      · rfl
      · rename_i hf hlength
        exact isPresent_lookup (by simpa [hf, hlength] using hlisted)
  | error name' message =>
      rw [objectProperty]
      split
      · rfl
      split
      · rfl
      · rename_i hf hmessage
        exact isPresent_lookup (by simpa [hf, hmessage] using hlisted)

theorem property?_of_listed {h : Heap} {v : Value} {name : String} (hname : Text.isName name = true)
    (hlisted : name ∈ (h.propertyNames v).map Prod.fst) :
    ∃ found, h.property? v name = some found ∧ found.isPresent = true := by
  cases v with
  | undefined => cases hlisted
  | null => cases hlisted
  | bool b => exact ⟨_, rfl, isPresent_lookup (by simpa [propertyNames] using hlisted)⟩
  | number x => exact ⟨_, rfl, isPresent_lookup (by simpa [propertyNames] using hlisted)⟩
  | text s =>
      refine ⟨_, rfl, ?_⟩
      rw [textProperty]
      split
      · rfl
      · rename_i hlength
        rw [index?_of_isName hname]
        exact isPresent_lookup (by simpa [propertyNames, hlength] using hlisted)
  | object r => exact ⟨_, rfl, listed_of_object hname hlisted⟩

end Heap

end ScriptRepl
