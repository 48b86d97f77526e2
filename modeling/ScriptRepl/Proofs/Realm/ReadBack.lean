import ScriptRepl.Proofs.Number.Sign
import ScriptRepl.Proofs.Realm.Literal
import ScriptRepl.Proofs.Syntax.Stratified
import ScriptRepl.Proofs.Syntax.Writing
import ScriptRepl.Realm.Host

/-! What a value is shown as can be read back: the text is a literal of its datum, and that is evaluated to a value that
is the same datum. -/
namespace ScriptRepl

open Syntax (Expr Token Phrase Writes IsToken)
open Syntax.Grammar (Nested Primary Assignment Field Separated)
open Number (Binary spell)

/-- The numbers in the datum are spelled as tokens of their own, signs aside. -/
def Datum.Legible (d : Datum) : Prop :=
  ∀ x b, Binary.ofFloat? x = some b → b.negative = false → d.Contains x ∨ d.Contains (-x) →
    IsToken (spell x) (.number x)

theorem Datum.Legible.item {ds : List Datum} {d : Datum} (h : (Datum.list ds).Legible) (hd : d ∈ ds) : d.Legible :=
  fun x b hx hb hmem => h x b hx hb (hmem.imp (.item hd) (.item hd))

theorem Datum.Legible.field {ds : List (String × Datum)} {d : Datum} (h : (Datum.record ds).Legible)
    (hd : d ∈ ds.map Prod.snd) : d.Legible :=
  fun x b hx hb hmem => h x b hx hb (hmem.imp (.field hd) (.field hd))

namespace Inspection

open Datum (Numeral Literal)

/-! ### Numbers -/

/-- The text is a number without a sign. -/
def WritesNumeral (text : String) (x : Float) : Prop :=
  ∃ e, Numeral x e ∧ ∀ deeper, Writes (Primary deeper) text.toList e

theorem writesNumeral_nan : WritesNumeral "NaN" Number.nan :=
  ⟨_, .nan, fun _ => Syntax.writes_name (by decide) fun _ ht => .name ht⟩

theorem writesNumeral_infinity : WritesNumeral "Infinity" Number.infinity :=
  ⟨_, .infinity, fun _ => Syntax.writes_name (by decide) fun _ ht => .name ht⟩

theorem writesNumeral_of_isToken {x : Float} {text : String} (h : IsToken text (.number x)) : WritesNumeral text x :=
  ⟨_, .number x, fun _ => Syntax.writes_number h fun _ ht => .number ht⟩

/-- A spelling is a numeral, behind a sign or not. -/
theorem writesNumeral_spell {x : Float} (h : (Datum.number x).Legible) :
    WritesNumeral (spell x) x ∨ ∃ y text, x = -y ∧ spell x = "-" ++ text ∧ WritesNumeral text y := by
  cases hx : Binary.ofFloat? x with
  | none =>
      rcases Number.eq_special_of_ofFloat? hx with rfl | rfl | rfl
      · rw [Number.spell_nan]
        exact .inl writesNumeral_nan
      · rw [Number.spell_infinity]
        exact .inl writesNumeral_infinity
      · exact .inr ⟨_, _, rfl, Number.spell_neg_infinity, writesNumeral_infinity⟩
  | some b =>
      cases hb : b.negative with
      | false => exact .inl (writesNumeral_of_isToken (h x b hx hb (.inl .number)))
      | true =>
          obtain ⟨hspell, hopposite⟩ := Number.spell_of_negative hx hb
          have hneg := Number.neg_neg_of_ofFloat? hx
          have hcontains : (Datum.number x).Contains (- -x) := by
            rw [hneg]
            exact .number
          refine .inr ⟨-x, spell (-x), hneg.symm, hspell, ?_⟩
          exact writesNumeral_of_isToken (h (-x) _ hopposite rfl (.inr hcontains))

theorem writes_number {x : Float} (h : (Datum.number x).Legible) (deeper : Nested) :
    ∃ e, (Datum.number x).Literal e ∧ Writes (Assignment deeper.above) (spell x).toList e := by
  rcases writesNumeral_spell h with ⟨e, he, hwrites⟩ | ⟨y, text, rfl, hspell, e, he, hwrites⟩
  · exact ⟨e, .number he, (hwrites deeper.above).imp fun _ hts => hts.assignment⟩
  · refine ⟨_, .negative he, ?_⟩
    have hsigned : (spell (-y)).toList = '-' :: text.toList := by
      rw [hspell, String.toList_append]
      rfl
    rw [hsigned]
    exact (hwrites deeper).mark (by decide) fun t ts ht hts => Syntax.assignment_of_negate ht (.chain (.primary hts))

/-! ### Lists and objects -/

theorem exists_forall₂ {α β γ : Type} {R : α → β → Prop} {P : α → γ → Prop} {Q : β → γ → Prop} {as : List α}
    {bs : List β} (h : List.Forall₂ R as bs) (hex : ∀ a ∈ as, ∀ b, R a b → ∃ c, P a c ∧ Q b c) :
    ∃ cs, List.Forall₂ P as cs ∧ List.Forall₂ Q bs cs := by
  induction h with
  | nil => exact ⟨[], .nil, .nil⟩
  | cons hab _ ih =>
      obtain ⟨c, hac, hbc⟩ := hex _ List.mem_cons_self _ hab
      obtain ⟨cs, has, hbs⟩ := ih fun a ha => hex a (List.mem_cons_of_mem _ ha)
      exact ⟨c :: cs, .cons hac has, .cons hbc hbs⟩

theorem exists_fields {α β : Type} {Q : α → β → Prop} {entries : List (String × α)} {bs : List β}
    (h : List.Forall₂ Q (entries.map Prod.snd) bs) :
    ∃ fields : List (String × β), fields.map Prod.fst = entries.map Prod.fst ∧ fields.map Prod.snd = bs ∧
      List.Forall₂ (fun entry field => entry.1 = field.1 ∧ Q entry.2 field.2) entries fields := by
  induction entries generalizing bs with
  | nil =>
      cases h
      exact ⟨[], rfl, rfl, .nil⟩
  | cons entry entries ih =>
      cases h with
      | @cons _ b _ bs hb hbs =>
          obtain ⟨fields, hkeys, hvalues, hfields⟩ := ih hbs
          refine ⟨(entry.1, b) :: fields, ?_, ?_, .cons ⟨rfl, hb⟩ hfields⟩
          · exact congrArg (entry.1 :: ·) hkeys
          · exact congrArg (b :: ·) hvalues

variable {h : Heap} {style : InspectStyle} {path : List Ref} {r : Ref}

theorem valueAt_empty_list {items : Array Value} (hr : h.get? r = some (.list items)) (hpath : path.contains r = false)
    (hempty : items.isEmpty = true) (room depth : Nat) : valueAt h style room depth path (.object r) = "[]" := by
  cases room <;> simp only [valueAt, hpath, hr, hempty, Bool.false_eq_true, if_false, if_true]

theorem valueAt_empty_plain {fields : Dict Value} (hr : h.get? r = some (.plain fields))
    (hpath : path.contains r = false) (hempty : fields.isEmpty = true) (room depth : Nat) :
    valueAt h style room depth path (.object r) = "\x7b\x7d" := by
  cases room <;> simp only [valueAt, hpath, hr, hempty, Bool.false_eq_true, if_false, if_true]

theorem valueAt_list {items : Array Value} (hr : h.get? r = some (.list items)) (hpath : path.contains r = false)
    (hne : items.isEmpty = false) (hsize : items.size ≤ 100) (room depth : Nat) :
    valueAt h style (room + 1) depth path (.object r) =
      layout style "[" "]" (items.toList.map (valueAt h style room (depth + 1) (r :: path))) depth := by
  have hitems : items.toList.take maxItems = items.toList := List.take_of_length_le hsize
  have hmore : items.size - maxItems = 0 := Nat.sub_eq_zero_of_le hsize
  simp only [valueAt, hpath, hr, hne, Bool.false_eq_true, if_false, hitems, hmore, moreItems, if_true, List.append_nil]

theorem valueAt_plain {fields : Dict Value} (hr : h.get? r = some (.plain fields)) (hpath : path.contains r = false)
    (hne : fields.isEmpty = false) (room depth : Nat) :
    valueAt h style (room + 1) depth path (.object r) =
      layout style "\x7b" "\x7d" (fields.entries.map fun field =>
        key style field.1 ++ ": " ++ valueAt h style room (depth + 1) (r :: path) field.2) depth := by
  simp only [valueAt, hpath, hr, hne, Bool.false_eq_true, if_false]

theorem writes_empty {opens close : Syntax.Punct} {o c : Char} (hopens : (o, opens) ∈ Syntax.marks)
    (hclose : (c, close) ∈ Syntax.marks) {α : Type} {item : Phrase α} {deeper : Nested} {e : Expr}
    (hphrase : ∀ t ts, t.kind = .punct opens → Separated close item ts [] → Assignment deeper (t :: ts) e) :
    Writes (Assignment deeper) [o, c] e := by
  have hclosed : Writes (Separated close item) [c] [] :=
    Syntax.writes_token (fun _ _ _ => Syntax.lexes_mark hclose) fun t ht => .close ht
  exact hclosed.mark hopens hphrase

/-- The objects on the way to a value are larger data. -/
def Above (h : Heap) (path : List Ref) (d : Datum) : Prop :=
  ∀ p ∈ path, ∃ d', h.Represents d' (.object p) ∧ sizeOf d < sizeOf d'

theorem Above.contains_eq_false {d : Datum} (habove : Above h path d) (hd : h.Represents d (.object r)) :
    path.contains r = false := by
  rw [List.contains_eq_mem, decide_eq_false_iff_not]
  intro hr
  obtain ⟨d', hd', hlt⟩ := habove r hr
  rw [hd.unique hd'] at hlt
  exact Nat.lt_irrefl _ hlt

theorem Above.cons {d inner : Datum} (habove : Above h path d) (hd : h.Represents d (.object r))
    (hlt : sizeOf inner < sizeOf d) : Above h (r :: path) inner := by
  intro p hp
  rcases List.mem_cons.mp hp with rfl | hp
  · exact ⟨d, hd, hlt⟩
  · obtain ⟨d', hd', hlt'⟩ := habove p hp
    exact ⟨d', hd', hlt.trans hlt'⟩

theorem writes_word {text : String} {deeper : Nested} {e : Expr} (hname : Text.isName text = true)
    (hprimary : ∀ t : Token, t.kind = Syntax.Lexer.nameKind text → Primary deeper [t] e) :
    Writes (Assignment deeper) text.toList e :=
  Syntax.writes_name hname fun t ht => (hprimary t ht).assignment

/-- The text is a literal of the datum that takes no more levels of nesting. -/
def Shows (room : Nat) (text : String) (d : Datum) : Prop :=
  ∃ e, d.Literal e ∧ Writes (Assignment (Nested.none.within (room + 1))) text.toList e

section

variable {levels room depth : Nat}

theorem shows_list {ds : List Datum} {items : Array Value} (hr : h.get? r = some (.list items))
    (hpath : path.contains r = false) (hitems : List.Forall₂ h.Represents ds items.toList)
    (hfits : (Datum.list ds).Fits levels) (hroom : levels ≤ room)
    (inner : ∀ n m, n ≤ m → ∀ d ∈ ds, d.Fits n → ∀ v, h.Represents d v →
      Shows m (valueAt h style n (depth + 1) (r :: path) v) d) :
    Shows room (valueAt h style levels depth path (.object r)) (.list ds) := by
  have hlength : ds.length = items.size := by
    rw [hitems.length_eq, Array.length_toList]
  cases hempty : items.isEmpty with
  | true =>
      have hds : ds = [] := by
        rw [← List.length_eq_zero_iff, hlength]
        simpa using hempty
      subst hds
      rw [valueAt_empty_list hr hpath hempty]
      refine ⟨_, .list .nil, ?_⟩
      exact writes_empty (by decide) (by decide) fun t ts ht hts => Primary.assignment (.array ht hts)
  | false =>
      have hne : ds ≠ [] := by
        rintro rfl
        simp_all
      obtain ⟨d, hd⟩ := List.exists_mem_of_ne_nil ds hne
      obtain ⟨n, rfl, -⟩ := hfits.items hd
      obtain ⟨m, rfl⟩ : ∃ m, room = m + 1 := ⟨room - 1, by omega⟩
      obtain ⟨es, hes, hwrites⟩ := exists_forall₂ hitems fun d hd v hv =>
        inner n m (by omega) d hd (hfits.2 d hd) v hv
      have hshown : items.toList.map (valueAt h style n (depth + 1) (r :: path)) ≠ [] := by
        simpa using hempty
      rw [valueAt_list hr hpath hempty (hlength ▸ hfits.1)]
      refine ⟨.array es, .list hes, ?_⟩
      exact Syntax.writes_layout rfl rfl (by decide) (by decide) (List.forall₂_map_left_iff.mpr hwrites) hshown style
        depth fun t ts ht hts => Primary.assignment (.array ht hts)

theorem shows_record (hstyle : style.colors = false) {ds : List (String × Datum)} {fields : Dict Value}
    (hr : h.get? r = some (.plain fields)) (hpath : path.contains r = false) (hkeys : ds.map Prod.fst = fields.keys)
    (hvalues : List.Forall₂ h.Represents (ds.map Prod.snd) fields.values) (hfits : (Datum.record ds).Fits levels)
    (hroom : levels ≤ room)
    (inner : ∀ n m, n ≤ m → ∀ d ∈ ds.map Prod.snd, d.Fits n → ∀ v, h.Represents d v →
      Shows m (valueAt h style n (depth + 1) (r :: path) v) d) :
    Shows room (valueAt h style levels depth path (.object r)) (.record ds) := by
  have hnodup : (ds.map Prod.fst).Nodup := by
    rw [hkeys]
    exact fields.nodup
  have hlength : ds.length = fields.entries.length := by
    have hlength := congrArg List.length hkeys
    rwa [List.length_map, Dict.keys, List.length_map] at hlength
  cases hempty : fields.isEmpty with
  | true =>
      have hds : ds = [] := by
        rw [← List.length_eq_zero_iff, hlength]
        simpa [Dict.isEmpty] using hempty
      subst hds
      rw [valueAt_empty_plain hr hpath hempty]
      refine ⟨.object [], .record rfl hnodup .nil, ?_⟩
      exact writes_empty (by decide) (by decide) fun t ts ht hts => Primary.assignment (.object ht hts)
  | false =>
      have hne : ds.map Prod.snd ≠ [] := by
        rw [Ne, List.map_eq_nil_iff, ← List.length_eq_zero_iff, hlength]
        simpa [Dict.isEmpty] using hempty
      obtain ⟨d, hd⟩ := List.exists_mem_of_ne_nil _ hne
      obtain ⟨n, rfl, -⟩ := hfits.fields hd
      obtain ⟨m, rfl⟩ : ∃ m, room = m + 1 := ⟨room - 1, by omega⟩
      obtain ⟨es, hes, hwrites⟩ := exists_forall₂ hvalues fun d hd v hv =>
        inner n m (by omega) d hd (hfits d hd) v hv
      obtain ⟨exprs, hexprs, rfl, hfields⟩ := exists_fields hwrites
      have hshown : (fields.entries.map fun field =>
          key style field.1 ++ ": " ++ valueAt h style n (depth + 1) (r :: path) field.2) ≠ [] := by
        simpa [Dict.isEmpty] using hempty
      rw [valueAt_plain hr hpath hempty]
      refine ⟨.object exprs, .record (hkeys.trans hexprs.symm) hnodup hes, ?_⟩
      refine Syntax.writes_layout rfl rfl (by decide) (by decide) (List.forall₂_map_left_iff.mpr ?_) hshown style
        depth fun t ts ht hts => Primary.assignment (.object ht hts)
      refine hfields.imp fun field expr hfield => ?_
      rw [hfield.1]
      exact Syntax.writes_field hstyle hfield.2

end

/-- What a value is shown as is a literal of its datum. -/
theorem shows_valueAt (hstyle : style.colors = false) {d : Datum} {v : Value} {levels room : Nat}
    (hd : h.Represents d v) (hfits : d.Fits levels) (hlegible : d.Legible) (hroom : levels ≤ room)
    (habove : Above h path d) (depth : Nat) : Shows room (valueAt h style levels depth path v) d := by
  have hplain : ∀ tint text, tinted style tint text = text := fun tint text => if_neg (by simp [hstyle])
  induction d using Datum.induction generalizing v levels room depth path with
  | undefined =>
      cases hd
      refine ⟨_, .undefined, ?_⟩
      rw [valueAt, hplain]
      exact writes_word (by decide) fun _ ht => .literal ht
  | null =>
      cases hd
      refine ⟨_, .null, ?_⟩
      rw [valueAt, hplain]
      exact writes_word (by decide) fun _ ht => .literal ht
  | bool b =>
      cases hd
      refine ⟨_, .bool b, ?_⟩
      rw [valueAt, hplain]
      cases b
      · exact writes_word (by decide) fun _ ht => .literal ht
      · exact writes_word (by decide) fun _ ht => .literal ht
  | number x =>
      cases hd
      rw [valueAt, hplain]
      exact writes_number hlegible _
  | text s =>
      cases hd
      refine ⟨_, .text s, ?_⟩
      rw [valueAt, hplain]
      exact Syntax.writes_quote fun t ht => Primary.assignment (.text ht)
  | list ds ih =>
      have hobject := hd
      cases hd with
      | list hr hitems =>
          refine shows_list hr (habove.contains_eq_false hobject) hitems hfits hroom fun n m hle d hd hfits v hv => ?_
          exact ih d hd hv hfits (hlegible.item hd) hle (habove.cons hobject (Datum.sizeOf_item hd)) (depth + 1)
  | record ds ih =>
      have hobject := hd
      cases hd with
      | record hr hkeys hvalues =>
          refine shows_record hstyle hr (habove.contains_eq_false hobject) hkeys hvalues hfits hroom
            fun n m hle d hd hfits v hv => ?_
          exact ih d hd hv hfits (hlegible.field hd) hle (habove.cons hobject (Datum.sizeOf_field hd)) (depth + 1)

end Inspection

open Inspection in
theorem Heap.parse_inspect {h : Heap} {d : Datum} {v : Value} {style : InspectStyle} (hd : h.Represents d v)
    (hfits : d.Fits (maxDepth + 1)) (hlegible : d.Legible) (hstyle : style.colors = false) :
    ∃ e, d.Literal e ∧ Syntax.parseProgram (h.inspect style v) = .ok [.expr e] := by
  obtain ⟨e, he, kinds, hlexes, hphrase⟩ := @shows_valueAt h style [] hstyle d v (maxDepth + 1) 127 hd hfits hlegible
    (by decide) nofun 0
  obtain ⟨ts, mark, hscan, hkinds⟩ := hlexes [] [] nofun Syntax.lexes_nil 0
  rw [List.append_nil] at hscan hkinds
  exact ⟨e, he, Syntax.parseProgram_of_expression ⟨ts, mark, hscan, hphrase _ hkinds⟩⟩

/-- What a value is shown as is evaluated to a value that is the same datum, in any realm that has not changed the names
of the special numbers. -/
theorem Host.evaluate_inspect {h : Heap} {d : Datum} {v : Value} {style : InspectStyle} {host : Host}
    {options : EvalOptions} (hd : h.Represents d v) (hfits : d.Fits 3) (hlegible : d.Legible)
    (hstyle : style.colors = false) (hticks : options.ticks = none)
    (hnan : (host.realm.globals.get? "NaN").map (·.value) = some (.number Number.nan))
    (hinfinity : (host.realm.globals.get? "Infinity").map (·.value) = some (.number Number.infinity)) :
    ∃ remote host' v', host.evaluate (h.inspect style v) options = (.ok (.value remote), host') ∧
      host'.handles = host.handles ++ [⟨remote.id, v', options.group⟩] ∧ host'.realm.heap.Represents d v' := by
  obtain ⟨e, he, hparse⟩ := h.parse_inspect hd hfits hlegible hstyle
  have hready : Eval.Ready ⟨host.realm, options.ticks⟩ := ⟨hticks, hnan, hinfinity⟩
  have hbuilds : (Evaluation.eval options.speculative 0 e).Builds host.realm.heap (·.Represents d) :=
    Evaluation.builds_literal he hfits (by decide)
  obtain ⟨v', run, hrun, -, -, hv'⟩ := hbuilds _ hready (.refl _)
  have hprogram : (programOf (h.inspect style v) options).run.run ⟨host.realm, options.ticks⟩ = (.ok v', run) := by
    change (programOf _ _).outcome _ = _
    rw [programOf, hparse]
    dsimp only
    rw [Evaluation.run, Eval.outcome_bind, hrun]
    rfl
  have hevaluate : host.evaluate (h.inspect style v) options =
      (.ok (.value ({ host with realm := run.realm }.register v' options.group).1),
        ({ host with realm := run.realm }.register v' options.group).2) := by
    rw [evaluate, perform, hprogram]
  exact ⟨_, _, v', hevaluate, rfl, hv'⟩

/-- Objects and lists in each other, one of them empty, keys that are no names, and all kinds of numbers. -/
def nestedHeap : Heap :=
  ⟨#[.list #[.number (-Number.ofNat 5), .number Number.nan, .number (-Number.infinity), .object ⟨1⟩], .list #[],
    .plain ⟨[("typeof", .object ⟨0⟩), ("it's\n", .undefined)], by decide⟩]⟩

def nestedDatum : Datum :=
  .record [("typeof", .list [.number (-Number.ofNat 5), .number Number.nan, .number (-Number.infinity), .list []]),
    ("it's\n", .undefined)]

theorem represents_nested : nestedHeap.Represents nestedDatum (.object ⟨2⟩) := by
  have hempty : nestedHeap.Represents (.list []) (.object ⟨1⟩) := by
    refine .list rfl ?_
    exact .nil
  have hlist : nestedHeap.Represents
      (.list [.number (-Number.ofNat 5), .number Number.nan, .number (-Number.infinity), .list []]) (.object ⟨0⟩) := by
    refine .list rfl ?_
    exact .cons (.number _) (.cons (.number _) (.cons (.number _) (.cons hempty .nil)))
  refine .record rfl rfl ?_
  exact .cons hlist (.cons .undefined .nil)

theorem contains_nested {x : Float} (h : nestedDatum.Contains x) :
    x = -Number.ofNat 5 ∨ x = Number.nan ∨ x = -Number.infinity := by
  cases h with
  | field hd h =>
      simp only [List.map_cons, List.map_nil, List.mem_cons, List.not_mem_nil, or_false] at hd
      rcases hd with rfl | rfl
      · cases h with
        | item hd h =>
            simp only [List.mem_cons, List.not_mem_nil, or_false] at hd
            rcases hd with rfl | rfl | rfl | rfl
            · cases h
              exact .inl rfl
            · cases h
              exact .inr (.inl rfl)
            · cases h
              exact .inr (.inr rfl)
            · cases h with
              | item hd h => cases hd
      · cases h

theorem legible_nested : nestedDatum.Legible := by
  intro x b hx hb hcontains
  have hback := Number.neg_neg_of_ofFloat? hx
  -- no part of the datum is a finite number that is not negative
  have hpart : ∀ y ∈ [-Number.ofNat 5, Number.nan, -Number.infinity], y ≠ x := by
    rintro y hy rfl
    have hnegative : ∀ y ∈ [-Number.ofNat 5, Number.nan, -Number.infinity],
        (Binary.ofFloat? y).all (·.negative) = true := by decide
    have hy := hnegative y hy
    rw [hx, Option.all_some, hb] at hy
    cases hy
  have hopposite : ∀ y ∈ [Number.nan, -Number.infinity], -y ≠ x := by
    rintro y hy rfl
    have hspecial : ∀ y ∈ [Number.nan, -Number.infinity], Binary.ofFloat? (-y) = none := by decide
    rw [hspecial y hy] at hx
    cases hx
  rcases hcontains with h | h
  · rcases contains_nested h with rfl | rfl | rfl
    · exact absurd rfl (hpart _ (by simp))
    · exact absurd rfl (hpart _ (by simp))
    · exact absurd rfl (hpart _ (by simp))
  · rcases contains_nested h with hfive | hnan | hinfinity
    · have hread : IsToken (spell (- -Number.ofNat 5)) (.number (- -Number.ofNat 5)) := by decide +kernel
      rwa [← hfive, hback] at hread
    · exact absurd (hnan ▸ hback) (hopposite _ (by simp))
    · exact absurd (hinfinity ▸ hback) (hopposite _ (by simp))

theorem evaluate_inspect_nested :
    nestedHeap.Represents nestedDatum (.object ⟨2⟩) ∧ nestedDatum.Fits 3 ∧ nestedDatum.Legible ∧
      nestedHeap.inspect {} (.object ⟨2⟩) = "\x7b typeof: [ -5, NaN, -Infinity, [] ], 'it\\'s\\n': undefined \x7d" ∧
      ∃ remote host' v', (Host.fresh 1).evaluate (nestedHeap.inspect {} (.object ⟨2⟩)) {} =
          (.ok (.value remote), host') ∧
        host'.handles = (Host.fresh 1).handles ++ [⟨remote.id, v', none⟩] ∧
        host'.realm.heap.Represents nestedDatum v' := by
  have hfits : nestedDatum.Fits 3 := by simp [nestedDatum, Datum.Fits]
  have hready := Realm.ready_fresh 1
  refine ⟨represents_nested, hfits, legible_nested, by decide, ?_⟩
  exact Host.evaluate_inspect represents_nested hfits legible_nested rfl rfl hready.nan hready.infinity

end ScriptRepl
