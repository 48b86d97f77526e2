import ScriptRepl.Proofs.Json.Passing
import ScriptRepl.Proofs.Realm.Literal

/-! A JSON value that is written, indented by any blanks or not at all, is read back as it was. -/
namespace ScriptRepl.Json

/-! ### What stands between items -/

/-- Nothing but blanks stands around the items, commas and colons of the layout. -/
structure Layout.Blank (layout : Layout) : Prop where
  first : Reader.Spaces layout.first.toList
  between : ∃ blanks, layout.between.toList = ',' :: blanks ∧ Reader.Spaces blanks
  last : Reader.Spaces layout.last.toList
  colon : ∃ blanks, layout.colon.toList = ':' :: blanks ∧ Reader.Spaces blanks

theorem Layout.blank_at {indent : String} (hindent : Reader.Spaces indent.toList) (level : Nat) :
    (Layout.at indent level).Blank := by
  unfold Layout.at
  split
  · exact ⟨nofun, ⟨[], rfl, nofun⟩, nofun, ⟨[], rfl, nofun⟩⟩
  · have hline (n : Nat) : Reader.Spaces ("\n" ++ String.join (List.replicate n indent)).toList := by
      intro c hc
      rw [String.toList_append, List.mem_append, String.toList_join, List.mem_flatMap] at hc
      rcases hc with hc | ⟨s, hs, hc⟩
      · rw [List.mem_singleton.mp hc]
        decide
      · rw [List.eq_of_mem_replicate hs] at hc
        exact hindent c hc
    have hcolon : ": ".toList = [':', ' '] := by decide
    exact ⟨hline _, ⟨_, String.toList_append, hline (level + 1)⟩, hline _, ⟨[' '], hcolon, by decide⟩⟩

namespace Reader

variable {α β σ : Type} {passed more rest blanks last : List Char}

/-! ### What follows a value -/

theorem EndsNumber.behind (hrest : EndsNumber rest) (hblanks : Spaces blanks) : EndsNumber (blanks ++ rest) := by
  cases blanks with
  | nil => exact hrest
  | cons b blanks =>
      apply endsNumber_cons
      have hspace := hblanks b List.mem_cons_self
      simp only [isSpace, Bool.or_eq_true, beq_iff_eq] at hspace
      rcases hspace with ((rfl | rfl) | rfl) | rfl
      all_goals decide

/-- The characters of items of which each comes behind a comma. -/
def separated (blanks : List Char) (chars : α → List Char) (xs : List α) : List Char :=
  xs.flatMap fun x => ',' :: (blanks ++ chars x)

theorem separated_cons (chars : α → List Char) (x : α) (xs : List α) :
    separated blanks chars (x :: xs) = (',' :: blanks) ++ (chars x ++ separated blanks chars xs) := by
  simp only [separated, List.flatMap_cons, List.cons_append, List.append_assoc]

theorem endsNumber_separated {chars : α → List Char} {xs : List α} (hlast : Spaces last)
    (hrest : EndsNumber rest) : EndsNumber ((separated blanks chars xs ++ last) ++ rest) := by
  cases xs with
  | nil => exact hrest.behind hlast
  | cons x xs => exact endsNumber_cons (by decide)

theorem Reads.behind {f : Option Char → Reader β} {b : β} {c : Char} {cs : List Char}
    (hf : Reads (f (some c)) (c :: cs) b rest) (hblanks : Spaces blanks) (hc : isSpace c = false) :
    Reads (peekPastSpace >>= f) (blanks ++ c :: cs) b rest :=
  (reads_peekPastSpace_cons hblanks hc).bind hf

theorem Reads.here {f : Option Char → Reader β} {b : β} {c : Char} {cs : List Char}
    (hf : Reads (f (some c)) (c :: cs) b rest) (hc : isSpace c = false) :
    Reads (peekPastSpace >>= f) (c :: cs) b rest :=
  hf.behind spaces_nil hc

theorem reads_remaining : Reads remaining [] (rest.length + 1) rest := by
  intro offset
  rfl

/-! ### Lists -/

/-- How a value starts: not with a blank, and not as the end of a list does. -/
def Opens (text : List Char) : Prop :=
  ∃ c cs, text = c :: cs ∧ isSpace c = false ∧ c ≠ ']'

theorem Opens.append (hopens : Opens passed) (more : List Char) : Opens (passed ++ more) := by
  obtain ⟨c, cs, rfl, hspace, hend⟩ := hopens
  exact ⟨c, cs ++ more, rfl, hspace, hend⟩

theorem Opens.reads_peekPastSpace (hopens : Opens more) (hblanks : Spaces blanks) :
    ∃ c, c ≠ ']' ∧ Reads peekPastSpace blanks (some c) (more ++ rest) := by
  obtain ⟨c, cs, rfl, hspace, hend⟩ := hopens
  exact ⟨c, hend, reads_peekPastSpace_cons hblanks hspace⟩

theorem reads_nextItem_first (hblanks : Spaces blanks) (hopens : Opens more) :
    Reads (nextItem true) blanks true (more ++ rest) := by
  obtain ⟨c, hend, hpeek⟩ := hopens.reads_peekPastSpace hblanks
  refine hpeek.finish ?_
  split
  · cases ‹some c = none›
  · exact absurd (Option.some.inj ‹_›) hend
  · exact reads_pure true

theorem reads_nextItem_next (hblanks : Spaces blanks) (hopens : Opens more) :
    Reads (nextItem false) (',' :: blanks) true (more ++ rest) := by
  obtain ⟨c, hend, hpeek⟩ := hopens.reads_peekPastSpace hblanks
  refine Reads.here ?_ (by decide)
  refine Reads.next (hpeek.finish ?_) ','
  split
  · exact absurd (Option.some.inj ‹_›) hend
  · exact reads_pure true
  · cases ‹some c = none›

theorem reads_nextItem_last (hblanks : Spaces blanks) (first : Bool) :
    Reads (nextItem first) blanks false (']' :: rest) :=
  (reads_peekPastSpace_cons hblanks (by decide)).finish (reads_pure false)

section Items

variable {item : Reader α} {chars : α → List Char} {xs : List α}

/-- The items behind one that has been read, up to the end of the list. -/
theorem reads_items_next (hblanks : Spaces blanks) (hlast : Spaces last) (hopens : ∀ x ∈ xs, Opens (chars x))
    (hitem : ∀ x ∈ xs, ∀ rest, EndsNumber rest → Reads item (chars x) x rest) {fuel : Nat}
    (hfuel : (separated blanks chars xs).length < fuel) :
    Reads (items item fuel false) (separated blanks chars xs ++ last) xs (']' :: rest) := by
  induction xs generalizing fuel with
  | nil =>
      cases fuel with
      | zero => exact absurd hfuel (Nat.not_lt_zero _)
      | succ fuel => exact (reads_nextItem_last hlast false).finish (reads_pure [])
  | cons x xs ih =>
      cases fuel with
      | zero => exact absurd hfuel (Nat.not_lt_zero _)
      | succ fuel =>
          -- An item takes at least its comma, so the fuel that is left is enough for the others.
          rw [separated_cons, List.length_append, List.length_cons, List.length_append] at hfuel
          rw [separated_cons, List.append_assoc, List.append_assoc]
          have hx := hitem x List.mem_cons_self ((separated blanks chars xs ++ last) ++ ']' :: rest)
            (endsNumber_separated hlast (endsNumber_cons (by decide)))
          have hmore : Reads (items item fuel false) (separated blanks chars xs ++ last) xs (']' :: rest) :=
            ih (fun x hx => hopens x (List.mem_cons_of_mem _ hx)) (fun x hx => hitem x (List.mem_cons_of_mem _ hx))
              (by omega)
          exact (reads_nextItem_next hblanks ((hopens x List.mem_cons_self).append _)).bind (hx.cons hmore)

/-- All items of a list, up to its end. -/
theorem reads_items {first : List Char} {x : α} (hfirst : Spaces first) (hblanks : Spaces blanks) (hlast : Spaces last)
    (hopens : ∀ y ∈ x :: xs, Opens (chars y))
    (hitem : ∀ y ∈ x :: xs, ∀ rest, EndsNumber rest → Reads item (chars y) y rest) {fuel : Nat}
    (hfuel : (separated blanks chars xs).length < fuel) :
    Reads (items item (fuel + 1) true) (first ++ (chars x ++ (separated blanks chars xs ++ last))) (x :: xs)
      (']' :: rest) := by
  have hx := hitem x List.mem_cons_self ((separated blanks chars xs ++ last) ++ ']' :: rest)
    (endsNumber_separated hlast (endsNumber_cons (by decide)))
  have hmore : Reads (items item fuel false) (separated blanks chars xs ++ last) xs (']' :: rest) :=
    reads_items_next hblanks hlast (fun x hx => hopens x (List.mem_cons_of_mem _ hx))
      (fun x hx => hitem x (List.mem_cons_of_mem _ hx)) hfuel
  exact (reads_nextItem_first hfirst ((hopens x List.mem_cons_self).append _)).bind (hx.cons hmore)

end Items

/-! ### Objects -/

theorem reads_peekPastSpace_quote (hblanks : Spaces blanks) (key : String) :
    Reads peekPastSpace blanks (some '"') ((quote key).toList ++ rest) := by
  rw [toList_quote]
  exact reads_peekPastSpace_cons hblanks (by decide)

theorem reads_nextKey_first (hblanks : Spaces blanks) (key : String) :
    Reads (nextKey true) blanks true ((quote key).toList ++ rest) :=
  (reads_peekPastSpace_quote hblanks key).finish (reads_pure true)

theorem reads_nextKey_next (hblanks : Spaces blanks) (key : String) :
    Reads (nextKey false) (',' :: blanks) true ((quote key).toList ++ rest) := by
  refine Reads.here ?_ (by decide)
  exact Reads.next ((reads_peekPastSpace_quote hblanks key).finish (reads_pure true)) ','

theorem reads_nextKey_last (hblanks : Spaces blanks) (first : Bool) :
    Reads (nextKey first) blanks false ('\x7d' :: rest) :=
  (reads_peekPastSpace_cons hblanks (by decide)).finish (reads_pure false)

section Fields

variable {field : σ → String → Reader σ} {chars : α → List Char} {step : σ → String × α → σ}
  {entries : List (String × α)} {s : σ}

/-- The characters of a field, given those that follow a key. -/
def fieldChars (chars : α → List Char) (entry : String × α) : List Char :=
  (quote entry.1).toList ++ chars entry.2

/-- A field, with what comes before its key, and the fields behind it. -/
theorem reads_fields_cons {first : Bool} {before : List Char} {e : String × α} {t : σ} {fuel : Nat}
    (hkey : ∀ {rest}, Reads (nextKey first) before true ((quote e.1).toList ++ rest))
    (hfield : Reads (field s e.1) (chars e.2) (step s e) (more ++ rest))
    (hmore : Reads (fields field fuel false (step s e)) more t rest) :
    Reads (fields field (fuel + 1) first s) (before ++ (fieldChars chars e ++ more)) t rest := by
  have hnext : Reads (nextKey first) before true ((quote e.1).toList ++ ((chars e.2 ++ more) ++ rest)) := hkey
  rw [fieldChars, List.append_assoc]
  rw [← List.append_assoc] at hnext
  exact hnext.bind ((reads_text e.1).bind (hfield.bind hmore))

/-- The fields behind one that has been read, up to the end of the object. -/
theorem reads_fields_next (hblanks : Spaces blanks) (hlast : Spaces last)
    (hfield : ∀ e ∈ entries, ∀ s rest, EndsNumber rest → Reads (field s e.1) (chars e.2) (step s e) rest) {fuel : Nat}
    (hfuel : (separated blanks (fieldChars chars) entries).length < fuel) :
    Reads (fields field fuel false s) (separated blanks (fieldChars chars) entries ++ last) (entries.foldl step s)
      ('\x7d' :: rest) := by
  induction entries generalizing fuel s with
  | nil =>
      cases fuel with
      | zero => exact absurd hfuel (Nat.not_lt_zero _)
      | succ fuel => exact (reads_nextKey_last hlast false).finish (reads_pure s)
  | cons e entries ih =>
      cases fuel with
      | zero => exact absurd hfuel (Nat.not_lt_zero _)
      | succ fuel =>
          rw [separated_cons, List.length_append, List.length_cons, List.length_append] at hfuel
          rw [separated_cons, List.append_assoc, List.append_assoc]
          have he := hfield e List.mem_cons_self s
            ((separated blanks (fieldChars chars) entries ++ last) ++ '\x7d' :: rest)
            (endsNumber_separated hlast (endsNumber_cons (by decide)))
          exact reads_fields_cons (reads_nextKey_next hblanks e.1) he
            (ih (fun e he => hfield e (List.mem_cons_of_mem _ he)) (by omega))

/-- All fields of an object, up to its end. -/
theorem reads_fields {first : List Char} {e : String × α} (hfirst : Spaces first)
    (hblanks : Spaces blanks) (hlast : Spaces last)
    (hfield : ∀ f ∈ e :: entries, ∀ s rest, EndsNumber rest → Reads (field s f.1) (chars f.2) (step s f) rest)
    {fuel : Nat} (hfuel : (separated blanks (fieldChars chars) entries).length < fuel) :
    Reads (fields field (fuel + 1) true s)
      (first ++ (fieldChars chars e ++ (separated blanks (fieldChars chars) entries ++ last)))
      ((e :: entries).foldl step s) ('\x7d' :: rest) := by
  have he := hfield e List.mem_cons_self s ((separated blanks (fieldChars chars) entries ++ last) ++ '\x7d' :: rest)
    (endsNumber_separated hlast (endsNumber_cons (by decide)))
  exact reads_fields_cons (reads_nextKey_first hfirst e.1) he
    (reads_fields_next hblanks hlast (fun e he => hfield e (List.mem_cons_of_mem _ he)) hfuel)

end Fields

/-! ### Values -/

theorem reads_endList : Reads endList [']'] () rest :=
  Reads.here (reads_advance [']']) (by decide)

theorem reads_endObject : Reads endObject ['\x7d'] () rest :=
  Reads.here (reads_advance ['\x7d']) (by decide)

theorem reads_colon : Reads colon [':'] () rest :=
  Reads.here (reads_advance [':']) (by decide)

theorem reads_list {item : Reader Json} {chars : List Char} {xs : List Json}
    (h : ∀ fuel, chars.length < fuel → Reads (items item (fuel + 1) true) chars xs (']' :: rest)) :
    Reads (list item) ('[' :: (chars ++ [']'])) (.array xs) rest := by
  have hfuel : chars.length < (chars ++ [']'] ++ rest).length := by
    simp
  refine Reads.next (reads_remaining.look ?_) '['
  exact (h _ hfuel).bind (reads_endList.finish (reads_pure (Json.array xs)))

theorem reads_object {value : Reader Json} {chars : List Char} {es : List (String × Json)}
    (h : ∀ fuel, chars.length < fuel → Reads (fields (fun es key => do
      colon
      return Entries.put key (← value) es) (fuel + 1) true []) chars es ('\x7d' :: rest)) :
    Reads (object value) ('\x7b' :: (chars ++ ['\x7d'])) (.object es) rest := by
  have hfuel : chars.length < (chars ++ ['\x7d'] ++ rest).length := by
    simp
  refine Reads.next (reads_remaining.look ?_) '\x7b'
  exact (h _ hfuel).bind (reads_endObject.finish (reads_pure (Json.object es)))

section Values

variable {list object : Reader Json}

theorem reads_valueWith_null (hblanks : Spaces blanks) :
    Reads (valueWith list object) (blanks ++ "null".toList) .null rest :=
  Reads.behind (reads_literal Json.null 'n' "ull") hblanks (by decide)

theorem reads_valueWith_bool (hblanks : Spaces blanks) (b : Bool) :
    Reads (valueWith list object) (blanks ++ (if b then "true" else "false").toList) (.bool b) rest := by
  cases b with
  | true => exact Reads.behind (reads_literal (Json.bool true) 't' "rue") hblanks (by decide)
  | false => exact Reads.behind (reads_literal (Json.bool false) 'f' "alse") hblanks (by decide)

theorem reads_valueWith_text (hblanks : Spaces blanks) (s : String) :
    Reads (valueWith list object) (blanks ++ (quote s).toList) (.text s) rest := by
  have htext : Reads (do return Json.text (← text)) (quote s).toList (.text s) rest := (reads_text s).map Json.text
  rw [toList_quote] at htext ⊢
  exact Reads.behind htext hblanks (by decide)

theorem reads_valueWith_whole (hblanks : Spaces blanks) {n : Int}
    (hlow : -(Number.twoTo 63 : Int) ≤ n) (hhigh : n ≤ maxWhole) (hrest : EndsNumber rest) :
    Reads (valueWith list object) (blanks ++ (toString n).toList) (.number (.whole n)) rest := by
  have hnumber := (reads_number hlow hhigh hrest).map Json.number
  obtain ⟨c, cs, hchars, hc⟩ := exists_cons_toString n
  rw [hchars] at hnumber ⊢
  refine Reads.behind ?_ hblanks hc.isSpace_eq_false
  split
  · cases ‹some c = none›
  · exact absurd (Option.some.inj ‹_›) (hc.ne (by decide))
  · exact absurd (Option.some.inj ‹_›) (hc.ne (by decide))
  · exact absurd (Option.some.inj ‹_›) (hc.ne (by decide))
  · exact absurd (Option.some.inj ‹_›) (hc.ne (by decide))
  · exact absurd (Option.some.inj ‹_›) (hc.ne (by decide))
  · exact absurd (Option.some.inj ‹_›) (hc.ne (by decide))
  · rename_i hhead
    cases hhead
    rw [if_pos (by simpa [StartsNumber] using hc)]
    exact hnumber

theorem reads_valueWith_list (hblanks : Spaces blanks) {chars : List Char} {json : Json}
    (h : Reads list ('[' :: chars) json rest) : Reads (valueWith list object) (blanks ++ '[' :: chars) json rest :=
  Reads.behind h hblanks (by decide)

theorem reads_valueWith_object (hblanks : Spaces blanks) {chars : List Char} {json : Json}
    (h : Reads object ('\x7b' :: chars) json rest) :
    Reads (valueWith list object) (blanks ++ '\x7b' :: chars) json rest :=
  Reads.behind h hblanks (by decide)

end Values

end Reader

/-! ### What is written -/

/-- What can be written so that it is read as it was: whole numbers fit into 64 bits, no key comes twice, and lists and
objects lie within so many levels. -/
inductive Exact : (levels : Nat) → Json → Prop where
  | null {levels : Nat} : Exact levels .null
  | bool {levels : Nat} (b : Bool) : Exact levels (.bool b)
  | whole {levels : Nat} {n : Int} (hlow : -(Number.twoTo 63 : Int) ≤ n) (hhigh : n ≤ Reader.maxWhole) :
    Exact levels (.number (.whole n))
  | text {levels : Nat} (s : String) : Exact levels (.text s)
  | array {levels : Nat} {items : List Json} (hitems : ∀ item ∈ items, Exact levels item) :
    Exact (levels + 1) (.array items)
  | object {levels : Nat} {fields : List (String × Json)} (hkeys : (fields.map Prod.fst).Nodup)
    (hfields : ∀ field ∈ fields, Exact levels field.2) : Exact (levels + 1) (.object fields)

open Reader

variable {indent : String} {level : Nat} {layout : Layout} {blanks : List Char}

theorem toList_renderItems {between : String} (hbetween : between.toList = ',' :: blanks) (items : List Json) :
    (renderItems indent level between items).toList =
      separated blanks (fun item => (renderAt indent level item).toList) items := by
  induction items with
  | nil => rfl
  | cons item items ih =>
      rw [renderItems, String.toList_append, String.toList_append, ih, hbetween, separated_cons, List.append_assoc]

/-- The characters of a field behind its key. -/
def valueChars (indent : String) (level : Nat) (layout : Layout) (json : Json) : List Char :=
  layout.colon.toList ++ (renderAt indent level json).toList

theorem toList_renderFields (hbetween : layout.between.toList = ',' :: blanks) (fields : List (String × Json)) :
    (renderFields indent level layout fields).toList =
      separated blanks (fieldChars (valueChars indent level layout)) fields := by
  induction fields with
  | nil => rfl
  | cons field fields ih =>
      rw [renderFields, separated_cons, ← ih]
      simp only [String.toList_append, hbetween, fieldChars, valueChars, List.append_assoc]

theorem toList_renderAt_array (hbetween : (Layout.at indent level).between.toList = ',' :: blanks) (item : Json)
    (items : List Json) :
    (renderAt indent level (.array (item :: items))).toList =
      '[' :: (((Layout.at indent level).first.toList ++ ((renderAt indent (level + 1) item).toList ++
        (separated blanks (fun item => (renderAt indent (level + 1) item).toList) items ++
          (Layout.at indent level).last.toList))) ++ [']']) := by
  rw [← toList_renderItems hbetween]
  simp [renderAt, String.toList_append]

theorem toList_renderAt_object (hbetween : (Layout.at indent level).between.toList = ',' :: blanks)
    (field : String × Json) (fields : List (String × Json)) :
    (renderAt indent level (.object (field :: fields))).toList =
      '\x7b' :: (((Layout.at indent level).first.toList ++
        (fieldChars (valueChars indent (level + 1) (Layout.at indent level)) field ++
          (separated blanks (fieldChars (valueChars indent (level + 1) (Layout.at indent level))) fields ++
            (Layout.at indent level).last.toList))) ++ ['\x7d']) := by
  rw [← toList_renderFields hbetween]
  simp [renderAt, String.toList_append, fieldChars, valueChars]

theorem Exact.opens {levels : Nat} {json : Json} (h : Exact levels json) :
    Opens (renderAt indent level json).toList := by
  have hbracket : Opens "[".toList := ⟨'[', [], rfl, by decide, by decide⟩
  have hbrace : Opens "\x7b".toList := ⟨'\x7b', [], rfl, by decide, by decide⟩
  cases h with
  | null =>
      rw [renderAt]
      exact ⟨'n', "ull".toList, rfl, by decide, by decide⟩
  | bool b =>
      rw [renderAt]
      cases b with
      | true => exact ⟨'t', "rue".toList, rfl, by decide, by decide⟩
      | false => exact ⟨'f', "alse".toList, rfl, by decide, by decide⟩
  | @whole _ n hlow hhigh =>
      obtain ⟨c, cs, hchars, hc⟩ := exists_cons_toString n
      exact ⟨c, cs, hchars, hc.isSpace_eq_false, hc.ne (by decide)⟩
  | text s => exact ⟨'"', _, toList_quote s, by decide, by decide⟩
  | @array _ items hitems =>
      cases items with
      | nil =>
          rw [renderAt]
          exact hbracket.append "]".toList
      | cons item items =>
          simp only [renderAt, String.toList_append, List.append_assoc]
          exact hbracket.append _
  | @object _ fields hkeys hfields =>
      cases fields with
      | nil =>
          rw [renderAt]
          exact hbrace.append "\x7d".toList
      | cons field fields =>
          simp only [renderAt, String.toList_append, List.append_assoc]
          exact hbrace.append _

/-- What reads the items of a list reads the list. -/
theorem reads_renderAt_array (hindent : Spaces indent.toList) (hblanks : Spaces blanks) {item object : Reader Json}
    {items : List Json}
    (hopens : ∀ json ∈ items, Opens (renderAt indent (level + 1) json).toList)
    (hitem : ∀ json ∈ items, ∀ rest, EndsNumber rest →
      Reads item (renderAt indent (level + 1) json).toList json rest) :
    Reads (valueWith (Reader.list item) object) (blanks ++ (renderAt indent level (.array items)).toList) (.array items)
      rest := by
  obtain ⟨hfirst, ⟨between, hbetween, hbetweenBlank⟩, hlast, -⟩ := Layout.blank_at hindent level
  cases items with
  | nil =>
      have hempty : (renderAt indent level (.array [])).toList = '[' :: ([] ++ [']']) := by
        rw [renderAt]
        rfl
      rw [hempty]
      refine reads_valueWith_list hblanks (reads_list fun fuel _ => ?_)
      exact (reads_nextItem_last spaces_nil true).finish (reads_pure [])
  | cons json items =>
      rw [toList_renderAt_array hbetween]
      refine reads_valueWith_list hblanks (reads_list fun fuel hfuel => ?_)
      refine reads_items hfirst hbetweenBlank hlast hopens hitem ?_
      simp only [List.length_append] at hfuel
      omega

/-- What reads the values in an object reads the object. -/
theorem reads_renderAt_object (hindent : Spaces indent.toList) (hblanks : Spaces blanks) {list value : Reader Json}
    {fields : List (String × Json)} (hkeys : (fields.map Prod.fst).Nodup)
    (hvalue : ∀ field ∈ fields, ∀ blanks rest, Spaces blanks → EndsNumber rest →
      Reads value (blanks ++ (renderAt indent (level + 1) field.2).toList) field.2 rest) :
    Reads (valueWith list (Reader.object value)) (blanks ++ (renderAt indent level (.object fields)).toList)
      (.object fields) rest := by
  obtain ⟨hfirst, ⟨between, hbetween, hbetweenBlank⟩, hlast, ⟨colon, hcolon, hcolonBlank⟩⟩ :=
    Layout.blank_at hindent level
  cases fields with
  | nil =>
      have hempty : (renderAt indent level (.object [])).toList = '\x7b' :: ([] ++ ['\x7d']) := by
        rw [renderAt]
        rfl
      rw [hempty]
      refine reads_valueWith_object hblanks (reads_object fun fuel _ => ?_)
      exact (reads_nextKey_last spaces_nil true).finish (reads_pure [])
  | cons field fields =>
      have hput : (field :: fields).foldl (fun es e => Entries.put e.1 e.2 es) [] = field :: fields :=
        Entries.foldl_put hkeys
      rw [toList_renderAt_object hbetween]
      refine reads_valueWith_object hblanks (reads_object fun fuel hfuel => ?_)
      have hfield : ∀ f ∈ field :: fields, ∀ (es : List (String × Json)) rest, EndsNumber rest →
          Reads (do
            Reader.colon
            return Entries.put f.1 (← value) es) (valueChars indent (level + 1) (Layout.at indent level) f.2)
            (Entries.put f.1 f.2 es) rest := by
        intro f hf es rest hrest
        -- The blank behind the colon is left to the value.
        rw [valueChars, hcolon]
        exact reads_colon.bind ((hvalue f hf _ rest hcolonBlank hrest).map fun json => Entries.put f.1 json es)
      rw [← hput]
      refine reads_fields hfirst hbetweenBlank hlast hfield ?_
      simp only [List.length_append] at hfuel
      omega

theorem exists_valueWith (levels : Nat) : ∃ list object, value levels = valueWith list object := by
  cases levels with
  | zero => exact ⟨_, _, rfl⟩
  | succ levels => exact ⟨_, _, rfl⟩

/-- A value is read to its end, behind blanks and before anything that is not more of a number. -/
theorem reads_value (hindent : Spaces indent.toList) {levels : Nat} {json : Json} (h : Exact levels json) (level : Nat)
    (blanks rest : List Char) (hblanks : Spaces blanks) (hrest : EndsNumber rest) :
    Reads (value levels) (blanks ++ (renderAt indent level json).toList) json rest := by
  induction h generalizing level rest blanks with
  | @null levels =>
      obtain ⟨list, object, hvalue⟩ := exists_valueWith levels
      rw [hvalue]
      exact reads_valueWith_null hblanks
  | @bool levels b =>
      obtain ⟨list, object, hvalue⟩ := exists_valueWith levels
      rw [hvalue]
      exact reads_valueWith_bool hblanks b
  | @whole levels n hlow hhigh =>
      obtain ⟨list, object, hvalue⟩ := exists_valueWith levels
      rw [hvalue]
      exact reads_valueWith_whole hblanks hlow hhigh hrest
  | @text levels s =>
      obtain ⟨list, object, hvalue⟩ := exists_valueWith levels
      rw [hvalue]
      exact reads_valueWith_text hblanks s
  | array hitems ih =>
      refine reads_renderAt_array hindent hblanks (fun json hjson => (hitems json hjson).opens) ?_
      intro json hjson rest hrest
      exact ih json hjson (level + 1) [] rest spaces_nil hrest
  | object hkeys hfields ih =>
      refine reads_renderAt_object hindent hblanks hkeys ?_
      intro field hfield blanks rest hblanks hrest
      exact ih field hfield (level + 1) blanks rest hblanks hrest

/-- What is written is read as it was, with any indentation by blanks. -/
theorem read_render (hindent : Spaces indent.toList) {json : Json} (h : Exact maxNesting json) :
    read (json.render indent) = .ok json := by
  have hvalue : Reads (value maxNesting) (json.render indent).toList json [] :=
    reads_value hindent h 0 [] [] spaces_nil nofun
  have hread : StateT.run (value maxNesting) ⟨0, (json.render indent).toList ++ []⟩ = pure (json, ⟨_, []⟩) := hvalue 0
  have hend : StateT.run peekPastSpace ⟨0 + Text.size (json.render indent).toList, []⟩ = pure (none, ⟨_, []⟩) :=
    reads_peekPastSpace spaces_nil (by simp) _
  rw [List.append_nil] at hread
  unfold read Reader.whole
  dsimp only
  rw [StateT.run_bind, Text.Cursor.ofString, hread, pure_bind, StateT.run_bind, hend, pure_bind]
  rfl

end ScriptRepl.Json
