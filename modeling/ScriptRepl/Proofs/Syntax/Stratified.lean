import ScriptRepl.Proofs.Syntax.ReadExpression

/-! The parsers of every level read the phrases of that level, by induction on the room for nesting; so the parser of
expressions returns the tree that the grammar derives, if there is one. -/
namespace ScriptRepl.Syntax.Parser

open Grammar

section

variable {l : Level} {d : Nested}

/-! ### Lists and objects -/

/-- Items are read up to a comma or the closing bracket, with which none of them begins. -/
structure ReadsItems {α : Type} (close : Punct) (item : Parse α) (phrase : Phrase α) : Prop where
  sound : ∀ {ts fin x i}, item.run ⟨ts, fin⟩ = .ok (x, i) →
    ∃ used rest, ts = used ++ rest ∧ i = ⟨rest, fin⟩ ∧ phrase used x
  complete : ∀ {used x t rest fin}, phrase used x → t.kind = .punct .comma ∨ t.kind = .punct close →
    item.run ⟨used ++ t :: rest, fin⟩ = .ok (x, ⟨t :: rest, fin⟩)
  first : ∀ {t ts fin r}, item.run ⟨t :: ts, fin⟩ = .ok r → t.kind ≠ .punct close

section

variable {α : Type} {close : Punct} {item : Parse α} {phrase : Phrase α}

theorem run_separated_item {ts : List Token} {fin : Nat} (hother : ∀ t ∈ ts.head?, t.kind ≠ .punct close) (n : Nat) :
    (separated close item (n + 1)).run ⟨ts, fin⟩ = (item >>= separatedTail close item n).run ⟨ts, fin⟩ := by
  obtain ⟨t, us, rfl, hkind, _⟩ | ⟨_, heat⟩ := eat_cases close ts fin
  · exact absurd hkind (hother t rfl)
  · rw [separated, run_bind_ok heat, if_neg Bool.false_ne_true]
    rfl

theorem sound_separated (h : ReadsItems close item phrase) {n : Nat} {ts : List Token} {fin : Nat} {xs : List α}
    {i : Input} (hrun : (separated close item n).run ⟨ts, fin⟩ = .ok (xs, i)) :
    ∃ used rest, ts = used ++ rest ∧ i = ⟨rest, fin⟩ ∧ Separated close phrase used xs := by
  induction n generalizing ts xs i with
  | zero => cases ts <;> cases hrun
  | succ n ih =>
      obtain ⟨t, ts, rfl, hclose, _⟩ | ⟨hother, _⟩ := eat_cases close ts fin
      · rw [run_separated_self hclose] at hrun
        cases hrun
        exact ⟨[t], ts, rfl, rfl, .close hclose⟩
      · rw [run_separated_item hother] at hrun
        obtain ⟨x, i', hitem, htail⟩ := ok_of_run_bind hrun
        obtain ⟨us, ts, rfl, rfl, hx⟩ := h.sound hitem
        obtain ⟨t, ts, rfl, hcomma, heat⟩ | ⟨_, heat⟩ := eat_cases .comma ts fin
        · rw [separatedTail, run_bind_ok heat, if_pos rfl] at htail
          obtain ⟨xs, i', hmore, hpure⟩ := ok_of_run_bind htail
          obtain ⟨vs, rest, rfl, rfl, hxs⟩ := ih hmore
          cases hpure
          exact ⟨us ++ t :: vs, rest, by simp, rfl, .more hx hcomma hxs⟩
        · rw [separatedTail, run_bind_ok heat, if_neg Bool.false_ne_true] at htail
          obtain ⟨_, i', hexpect, hpure⟩ := ok_of_run_bind htail
          obtain ⟨t, rest, rfl, hclose, rfl⟩ := of_run_expect hexpect
          cases hpure
          exact ⟨us ++ [t], rest, by simp, rfl, .last hx hclose⟩

/-- An item that is read does not begin with the closing bracket. -/
theorem ReadsItems.head_ne (h : ReadsItems close item phrase) {ts : List Token} {fin : Nat} {r : α × Input}
    (hrun : item.run ⟨ts, fin⟩ = .ok r) : ∀ t ∈ ts.head?, t.kind ≠ .punct close := by
  cases ts with
  | nil => nofun
  | cons t us =>
      intro t' ht'
      cases ht'
      exact h.first hrun

theorem complete_separated (h : ReadsItems close item phrase) (hne : close ≠ .comma) {used : List Token}
    {xs : List α} (hphrase : Separated close phrase used xs) {rest : List Token} {n : Nat}
    (hn : (used ++ rest).length ≤ n) (fin : Nat) :
    (separated close item (n + 1)).run ⟨used ++ rest, fin⟩ = .ok (xs, ⟨rest, fin⟩) := by
  induction hphrase generalizing n with
  | close hclose => exact run_separated_self hclose item n rest fin
  | @last us t x hx hclose =>
      have hitem : item.run ⟨us ++ t :: rest, fin⟩ = .ok (x, ⟨t :: rest, fin⟩) := h.complete hx (.inr hclose)
      have hother : t.kind ≠ .punct .comma := by
        rw [hclose]
        rintro ⟨⟩
        exact hne rfl
      rw [List.append_assoc, List.singleton_append, run_separated_item (h.head_ne hitem), run_bind_ok hitem,
        separatedTail, run_bind_ok (run_eat_other hother fin), if_neg Bool.false_ne_true,
        run_bind_ok (run_expect_self hclose fin)]
      rfl
  | @more us vs t x xs hx hcomma _ ih =>
      have hitem : item.run ⟨us ++ t :: (vs ++ rest), fin⟩ = .ok (x, ⟨t :: (vs ++ rest), fin⟩) :=
        h.complete hx (.inl hcomma)
      obtain ⟨k, rfl, hk⟩ : ∃ k, n = k + 1 ∧ (vs ++ rest).length ≤ k := by
        simp only [List.length_append, List.length_cons] at hn ⊢
        exact ⟨n - 1, by omega, by omega⟩
      rw [List.append_assoc, List.cons_append, run_separated_item (h.head_ne hitem), run_bind_ok hitem,
        separatedTail, run_bind_ok (run_eat_self hcomma fin), if_pos rfl]
      exact run_bind_ok (ih hk)

end

theorem first_assignment {close : Punct} (hclose : close ∈ stops) {t : Token} {ts : List Token} {fin : Nat}
    {r : Expr × Input} (hrun : (assignment l).run ⟨t :: ts, fin⟩ = .ok r) : t.kind ≠ .punct close := by
  obtain ⟨kind, start, stop, newline⟩ := t
  rintro ⟨⟩
  rcases eq_of_mem_stops hclose with rfl | rfl | rfl | rfl <;> cases hrun

theorem ends_stop {t : Token} {ts : List Token} {close : Punct} (hclose : close ∈ stops)
    (hkind : t.kind = .punct .comma ∨ t.kind = .punct close) : Ends 0 (t :: ts) := by
  obtain hcomma | hkind := hkind
  · exact ends_cons hcomma (by rintro _ ⟨⟩)
  · refine ends_cons hkind fun n hn => ?_
    rcases eq_of_mem_stops hclose with rfl | rfl | rfl | rfl <;> cases hn

theorem readsItems_assignment (h : l.Reads d) {close : Punct} (hclose : close ∈ stops) :
    ReadsItems close (assignment l) (Assignment d) where
  sound hrun := by
    obtain ⟨used, rest, hts, hi, hphrase, _⟩ := sound_assignment h hrun
    exact ⟨used, rest, hts, hi, hphrase⟩
  complete hphrase hkind := complete_assignment h hphrase (ends_stop hclose hkind) _
  first := first_assignment hclose

theorem reads_list (h : l.Reads d) {close : Punct} (hclose : close ∈ stops) (hne : close ≠ .comma) :
    Parser.Reads (list l close) (Separated close (Assignment d)) anywhere where
  sound := by
    intro ts fin xs i hrun
    have hrun : (listItems l close (ts.length + 1)).run ⟨ts, fin⟩ = .ok (xs, i) := hrun
    rw [listItems_eq_separated] at hrun
    obtain ⟨used, rest, hts, hi, hphrase⟩ := sound_separated (readsItems_assignment h hclose) hrun
    exact ⟨used, rest, hts, hi, hphrase, trivial⟩
  complete := by
    intro used xs rest fin hphrase _
    have hrun : (separated close (assignment l) ((used ++ rest).length + 1)).run ⟨used ++ rest, fin⟩ =
        .ok (xs, ⟨rest, fin⟩) := complete_separated (readsItems_assignment h hclose) hne hphrase (Nat.le_refl _) fin
    rw [← listItems_eq_separated] at hrun
    exact hrun

theorem sound_value (h : l.Reads d) {key : String} {ts : List Token} {fin : Nat} {x : String × Expr} {i : Input}
    (hrun : (do return (key, ← assignment l)).run ⟨ts, fin⟩ = .ok (x, i)) :
    ∃ used rest e, ts = used ++ rest ∧ i = ⟨rest, fin⟩ ∧ x = (key, e) ∧ Assignment d used e := by
  obtain ⟨e, i', hvalue, hpure⟩ := ok_of_run_bind hrun
  obtain ⟨used, rest, rfl, rfl, hphrase, _⟩ := sound_assignment h hvalue
  cases hpure
  exact ⟨used, rest, e, rfl, rfl, rfl, hphrase⟩

theorem sound_keyed (h : l.Reads d) {t : Token} {key : String} (hkey : fieldKey? t.kind = some key) {ts : List Token}
    {fin : Nat} {x : String × Expr} {i : Input} (hrun : (keyedFieldTail l key).run ⟨ts, fin⟩ = .ok (x, i)) :
    ∃ used rest, t :: ts = used ++ rest ∧ i = ⟨rest, fin⟩ ∧ Field d used x := by
  rw [run_keyedFieldTail] at hrun
  obtain ⟨_, i', hexpect, hvalue⟩ := ok_of_run_bind hrun
  obtain ⟨t', ts, rfl, hcolon, rfl⟩ := of_run_expect hexpect
  obtain ⟨us, rest, e, rfl, rfl, rfl, hphrase⟩ := sound_value h hvalue
  exact ⟨t :: t' :: us, rest, rfl, rfl, .keyed hkey hcolon hphrase⟩

theorem sound_name (h : l.Reads d) {t : Token} {s : String} (hkind : t.kind = .name s) {ts : List Token} {fin : Nat}
    {x : String × Expr} {i : Input} (hrun : (nameFieldTail l s).run ⟨ts, fin⟩ = .ok (x, i)) :
    ∃ used rest, t :: ts = used ++ rest ∧ i = ⟨rest, fin⟩ ∧ Field d used x := by
  obtain ⟨t', ts, rfl, hcolon, heat⟩ | ⟨_, heat⟩ := eat_cases .colon ts fin
  · rw [nameFieldTail, run_bind_ok heat, if_pos rfl] at hrun
    obtain ⟨us, rest, e, rfl, rfl, rfl, hphrase⟩ := sound_value h hrun
    exact ⟨t :: t' :: us, rest, rfl, rfl, .keyed (by rw [hkind, fieldKey?]) hcolon hphrase⟩
  · rw [nameFieldTail, run_bind_ok heat, if_neg Bool.false_ne_true] at hrun
    cases hrun
    exact ⟨[t], ts, rfl, rfl, .name hkind⟩

theorem complete_keyed (h : l.Reads d) {t t' : Token} {us rest : List Token} {key : String} {e : Expr}
    (hkey : fieldKey? t.kind = some key) (hcolon : t'.kind = .punct .colon) (hvalue : Assignment d us e)
    (hends : Ends 0 rest) (fin : Nat) :
    (objectField l).run ⟨t :: t' :: (us ++ rest), fin⟩ = .ok ((key, e), ⟨rest, fin⟩) := by
  have hpair : (do return (key, ← assignment l)).run ⟨us ++ rest, fin⟩ = .ok ((key, e), ⟨rest, fin⟩) :=
    run_bind_ok (complete_assignment h hvalue hends fin)
  have hname : (nameFieldTail l key).run ⟨t' :: (us ++ rest), fin⟩ = .ok ((key, e), ⟨rest, fin⟩) := by
    rw [nameFieldTail, run_bind_ok (run_eat_self hcolon fin), if_pos rfl]
    exact hpair
  have hkeyed : (keyedFieldTail l key).run ⟨t' :: (us ++ rest), fin⟩ = .ok ((key, e), ⟨rest, fin⟩) := by
    rw [keyedFieldTail, run_bind_ok (run_eat_self hcolon fin), if_pos rfl]
    exact hpair
  obtain ⟨kind, start, stop, newline⟩ := t
  cases kind with
  | name s =>
      cases hkey
      exact hname
  | keyword k =>
      cases hkey
      exact hkeyed
  | text s =>
      cases hkey
      exact hkeyed
  | number x =>
      cases hkey
      exact hkeyed
  | template t => cases hkey
  | punct p => cases hkey
  | comment => cases hkey

theorem readsItems_field (h : l.Reads d) : ReadsItems .closeBrace (objectField l) (Field d) where
  sound := by
    intro ts fin x i hrun
    cases ts with
    | nil => cases hrun
    | cons t ts =>
        obtain ⟨kind, start, stop, newline⟩ := t
        cases kind with
        | name s => exact sound_name h rfl hrun
        | keyword k =>
            have hkeyed : (keyedFieldTail l k.text).run ⟨ts, fin⟩ = .ok (x, i) := hrun
            exact sound_keyed h rfl hkeyed
        | text s =>
            have hkeyed : (keyedFieldTail l s).run ⟨ts, fin⟩ = .ok (x, i) := hrun
            exact sound_keyed h rfl hkeyed
        | number y =>
            have hkeyed : (keyedFieldTail l (Number.spell y)).run ⟨ts, fin⟩ = .ok (x, i) := hrun
            exact sound_keyed h rfl hkeyed
        | template t => cases hrun
        | punct p => cases hrun
        | comment => cases hrun
  complete := by
    intro used x t rest fin hphrase hkind
    have hends : Ends 0 (t :: rest) := ends_stop (by decide) hkind
    cases hphrase with
    | @name t' s hname =>
        have hother : t.kind ≠ .punct .colon := by
          obtain hkind | hkind := hkind <;> rw [hkind] <;> nofun
        obtain ⟨kind, start, stop, newline⟩ := t'
        cases hname
        have hrun : (nameFieldTail l s).run ⟨t :: rest, fin⟩ = .ok ((s, .name s), ⟨t :: rest, fin⟩) :=
          run_bind_ok (run_eat_other hother fin)
        exact hrun
    | keyed hkey hcolon hvalue => exact complete_keyed h hkey hcolon hvalue hends fin
  first := by
    intro t ts fin r hrun hkind
    obtain ⟨kind, start, stop, newline⟩ := t
    cases hkind
    cases hrun

theorem reads_object (h : l.Reads d) :
    Parser.Reads (object l)
      (fun used e => ∃ fields, Separated .closeBrace (Field d) used fields ∧ e = .object fields) anywhere where
  sound := by
    intro ts fin e i hrun
    have hrun : (objectFields l (ts.length + 1) >>= fun fields => pure (Expr.object fields)).run ⟨ts, fin⟩ =
        .ok (e, i) := hrun
    rw [objectFields_eq_separated] at hrun
    obtain ⟨fields, i', hfields, hpure⟩ := ok_of_run_bind hrun
    obtain ⟨used, rest, hts, rfl, hphrase⟩ := sound_separated (readsItems_field h) hfields
    cases hpure
    exact ⟨used, rest, hts, rfl, ⟨fields, hphrase, rfl⟩, trivial⟩
  complete := by
    rintro used _ rest fin ⟨fields, hphrase, rfl⟩ _
    have hrun : (separated .closeBrace (objectField l) ((used ++ rest).length + 1)).run ⟨used ++ rest, fin⟩ =
        .ok (fields, ⟨rest, fin⟩) := complete_separated (readsItems_field h) nofun hphrase (Nat.le_refl _) fin
    rw [← objectFields_eq_separated] at hrun
    have hobject : (objectFields l ((used ++ rest).length + 1) >>= fun fields => pure (Expr.object fields)).run
        ⟨used ++ rest, fin⟩ = .ok (.object fields, ⟨rest, fin⟩) := run_bind_ok hrun
    exact hobject

/-! ### Templates -/

theorem inputOf_eq_ok_iff {source : String} {i : Input} :
    inputOf source = .ok i ↔ ∃ ts mark, lex source = ⟨ts, .ok mark⟩ ∧ i = ⟨significant ts, mark.offset⟩ := by
  constructor
  · intro h
    unfold inputOf at h
    cases hlex : lex source with
    | mk ts result =>
        rw [hlex] at h
        cases result with
        | error e => cases h
        | ok mark =>
            cases h
            exact ⟨ts, mark, rfl, rfl⟩
  · rintro ⟨ts, mark, hlex, rfl⟩
    exact inputOf_of_lex hlex

theorem entire_eq_ok_iff_run {parse : Parse Expr} {source : String} {i : Input} (hinput : inputOf source = .ok i)
    {e : Expr} : entire parse source = .ok e ↔ ∃ i', parse.run i = .ok (e, i') ∧ i'.rest = [] := by
  rw [entire, hinput]
  simp only [bind, Except.bind]
  cases hrun : parse.run i with
  | error fault =>
      constructor
      · intro h
        cases h
      · rintro ⟨i', h, _⟩
        cases h
  | ok pair =>
      obtain ⟨x, rest, fin⟩ := pair
      cases rest with
      | nil =>
          constructor
          · intro h
            cases h
            exact ⟨⟨[], fin⟩, rfl, rfl⟩
          · rintro ⟨i', h, _⟩
            cases h
            rfl
      | cons t ts =>
          constructor
          · intro h
            cases h
          · rintro ⟨i', h, hnil⟩
            cases h
            cases hnil

/-- A parser of a whole source returns exactly what its tokens are a phrase for. -/
theorem entire_eq_ok_iff {parse : Parse Expr} {phrase : Phrase Expr} (h : Parser.Reads parse phrase (Ends 0))
    {source : String} {e : Expr} : entire parse source = .ok e ↔ phrase.OfSource source e := by
  constructor
  · intro hentire
    cases hinput : inputOf source with
    | error fault =>
        rw [entire, hinput] at hentire
        cases hentire
    | ok i =>
        obtain ⟨i', hrun, hnil⟩ := (entire_eq_ok_iff_run hinput).mp hentire
        obtain ⟨ts, mark, hlex, rfl⟩ := inputOf_eq_ok_iff.mp hinput
        obtain ⟨used, rest, hts, rfl, hphrase, _⟩ := h.sound hrun
        obtain rfl : rest = [] := hnil
        rw [List.append_nil] at hts
        exact ⟨ts, mark, hlex, hts ▸ hphrase⟩
  · rintro ⟨ts, mark, hlex, hphrase⟩
    have hrun : parse.run ⟨significant ts ++ [], mark.offset⟩ = .ok (e, ⟨[], mark.offset⟩) :=
      h.complete hphrase (ends_nil 0)
    rw [List.append_nil] at hrun
    exact (entire_eq_ok_iff_run (inputOf_of_lex hlex)).mpr ⟨_, hrun, rfl⟩

theorem holeExpr_eq_ok_iff (h : l.Reads d) {hole : Hole} {e : Expr} :
    holeExpr l hole = .ok e ↔ (Assignment d).OfSource hole.source e := by
  rw [← entire_eq_ok_iff (reads_assignment h), holeExpr]
  cases entire (assignment l) hole.source with
  | ok e' => rfl
  | error fault => exact ⟨nofun, nofun⟩

theorem templateParts_eq_ok_iff (h : l.Reads d) {parts : List (Hole × String)} {exprs : List (Expr × String)} :
    templateParts l parts = .ok exprs ↔ Parts d parts exprs := by
  induction parts generalizing exprs with
  | nil =>
      constructor
      · intro hparts
        cases hparts
        exact .nil
      · intro hparts
        cases hparts
        rfl
  | cons part parts ih =>
      obtain ⟨hole, s⟩ := part
      have hcons : templateParts l ((hole, s) :: parts) =
          (holeExpr l hole).bind fun e => (templateParts l parts).bind fun exprs => .ok ((e, s) :: exprs) := rfl
      rw [hcons]
      constructor
      · intro hparts
        cases hhole : holeExpr l hole with
        | error fault =>
            rw [hhole] at hparts
            cases hparts
        | ok e =>
            cases hrest : templateParts l parts with
            | error fault =>
                rw [hhole, hrest] at hparts
                cases hparts
            | ok more =>
                rw [hhole, hrest] at hparts
                cases hparts
                exact .cons ((holeExpr_eq_ok_iff h).mp hhole) (ih.mp hrest)
      · intro hparts
        cases hparts with
        | cons hexpr hmore =>
            rw [(holeExpr_eq_ok_iff h).mpr hexpr, ih.mpr hmore]
            rfl

theorem reads_template (h : l.Reads d) (t : Template) :
    Parser.Reads (template l t)
      (fun used e => used = [] ∧ ∃ exprs, Parts d t.parts exprs ∧ e = .template t.head exprs) anywhere where
  sound := by
    intro ts fin e i hrun
    cases hparts : templateParts l t.parts with
    | error fault =>
        rw [template, hparts] at hrun
        cases hrun
    | ok exprs =>
        rw [template, hparts] at hrun
        cases hrun
        exact ⟨[], ts, rfl, rfl, ⟨rfl, exprs, (templateParts_eq_ok_iff h).mp hparts, rfl⟩, trivial⟩
  complete := by
    rintro _ _ rest fin ⟨rfl, exprs, hparts, rfl⟩ _
    rw [template, (templateParts_eq_ok_iff h).mpr hparts]
    rfl

/-! ### Levels -/

theorem reads_forbidden : Level.forbidden.Reads Nested.none where
  assignment := reads_fail nofun .nesting
  binary _ _ := reads_fail nofun .nesting
  unary := reads_fail nofun .nesting
  list _ := reads_fail nofun .nesting
  object := reads_fail (by rintro _ _ ⟨_, hfalse, _⟩; exact hfalse) .nesting
  template _ := reads_fail (by rintro _ _ ⟨_, _, hfalse, _⟩; exact hfalse) .nesting

theorem reads_above (h : l.Reads d) : (Level.above l).Reads d.above where
  assignment := reads_assignment h
  binary hlow hhigh := reads_binary h hlow hhigh
  unary := reads_unary h
  list hclose := by
    obtain rfl | rfl := hclose
    · exact reads_list h (by decide) nofun
    · exact reads_list h (by decide) nofun
  object := reads_object h
  template := reads_template h

theorem reads_level (room : Nat) : (level room).Reads (Nested.none.within room) := by
  induction room with
  | zero => exact reads_forbidden
  | succ room ih => exact reads_above ih

theorem reads_expression : Parser.Reads expression Grammar.Expression (Ends 0) :=
  reads_assignment (reads_level maxNesting)

end

end ScriptRepl.Syntax.Parser

namespace ScriptRepl.Syntax

/-- The parser of expressions returns a tree exactly if the grammar derives it from all of the tokens, and the grammar
derives no two trees from the same tokens. -/
theorem parseExpression_eq_ok_iff_derives :
    (∀ ts fin e, Parser.expression.run ⟨significant ts, fin⟩ = .ok (e, ⟨[], fin⟩) ↔
      Grammar.Expression (significant ts) e) ∧
    (∀ source e, parseExpression source = .ok e ↔ Grammar.Expression.OfSource source e) ∧
    (∀ ts e e', Grammar.Expression ts e → Grammar.Expression ts e' → e = e') := by
  have hcomplete : ∀ ts fin e, Grammar.Expression ts e → Parser.expression.run ⟨ts, fin⟩ = .ok (e, ⟨[], fin⟩) := by
    intro ts fin e hphrase
    have hrun : Parser.expression.run ⟨ts ++ [], fin⟩ = .ok (e, ⟨[], fin⟩) :=
      Parser.reads_expression.complete hphrase (Parser.ends_nil 0)
    rwa [List.append_nil] at hrun
  refine ⟨?_, ?_, ?_⟩
  · intro ts fin e
    refine ⟨fun hrun => ?_, hcomplete _ fin e⟩
    obtain ⟨used, rest, hts, hrest, hphrase, _⟩ := Parser.reads_expression.sound hrun
    cases hrest
    rw [hts, List.append_nil]
    exact hphrase
  · intro source e
    exact Parser.entire_eq_ok_iff Parser.reads_expression
  · intro ts e e' he he'
    have hsame := (hcomplete ts 0 e he).symm.trans (hcomplete ts 0 e' he')
    cases hsame
    rfl

/-! ### Programs that are one expression -/

theorem run_statementBody_of_expression {t : Token} {ts : List Token} {fin : Nat} {e : Expr} {i : Parser.Input}
    (h : Parser.expression.run ⟨t :: ts, fin⟩ = .ok (e, i)) :
    Parser.statementBody.run ⟨t :: ts, fin⟩ = .ok (.expr e, i) := by
  have hexpr : (do return Stmt.expr (← Parser.expression)).run ⟨t :: ts, fin⟩ = .ok (.expr e, i) := Parser.run_bind_ok h
  obtain ⟨kind, start, stop, newline⟩ := t
  cases kind with
  | keyword k =>
      cases k with
      | decl kind => cases h
      | literal l => exact hexpr
      | typeof => exact hexpr
  | _ => exact hexpr

theorem parseProgram_of_expression {source : String} {e : Expr} (h : Grammar.Expression.OfSource source e) :
    parseProgram source = .ok [.expr e] := by
  obtain ⟨ts, mark, hlex, hphrase⟩ := h
  have hrun : Parser.expression.run ⟨significant ts ++ [], mark.offset⟩ = .ok (e, ⟨[], mark.offset⟩) :=
    Parser.reads_expression.complete hphrase (Parser.ends_nil 0)
  rw [List.append_nil] at hrun
  rw [parseProgram, inputOf_of_lex hlex]
  generalize significant ts = us at hrun ⊢
  cases us with
  | nil => cases hrun
  | cons t us =>
      have hother : t.kind ≠ .punct .semicolon := by
        obtain ⟨kind, start, stop, newline⟩ := t
        rintro ⟨⟩
        cases hrun
      have hstatement : Parser.statement.run ⟨t :: us, mark.offset⟩ = .ok (.expr e, ⟨[], mark.offset⟩) := by
        rw [Parser.statement, Parser.run_bind_ok (Parser.run_eat_other hother _), if_neg Bool.false_ne_true,
          Parser.run_bind_ok (run_statementBody_of_expression hrun)]
        rfl
      have hstatements : (Parser.statements (us.length + 1)).run ⟨t :: us, mark.offset⟩ =
          .ok ([.expr e], ⟨[], mark.offset⟩) := by
        rw [Parser.run_statements, Parser.run_bind_ok hstatement]
        cases us.length <;> rfl
      exact congrArg (Except.map Prod.fst) hstatements

/-! ### Templates without holes

A template takes a level of nesting of its own, also one without holes, in which nothing is nested. -/

/-- Where no room is left, but for templates without holes. -/
def Grammar.Nested.holeless : Grammar.Nested :=
  { Grammar.Nested.none with parts := fun parts exprs => parts = [] ∧ exprs = [] }

/-- A template in so many brackets. -/
def bracketed : Nat → List Token
  | 0 => [⟨.template ⟨"", []⟩, 0, 2, false⟩]
  | n + 1 => ⟨.punct .openBracket, 0, 1, false⟩ :: (bracketed n ++ [⟨.punct .closeBracket, 0, 1, false⟩])

def arrays : Nat → Expr
  | 0 => .template "" []
  | n + 1 => .array [arrays n]

theorem significant_bracketed (n : Nat) : significant (bracketed n) = bracketed n := by
  induction n with
  | zero => rfl
  | succ n ih =>
      rw [bracketed, ← List.singleton_append, significant_append, significant_append, ih]
      rfl

theorem bracketed_derives (n : Nat) :
    Grammar.Assignment (Grammar.Nested.holeless.within n) (bracketed n) (arrays n) := by
  induction n with
  | zero =>
      have hparts : (Grammar.Nested.holeless.within 0).parts [] [] := ⟨rfl, rfl⟩
      have hprimary : Grammar.Primary (Grammar.Nested.holeless.within 0) (bracketed 0) (.template "" []) :=
        @Grammar.Primary.template (Grammar.Nested.holeless.within 0) _ ⟨"", []⟩ [] rfl hparts
      exact hprimary.assignment
  | succ n ih => exact Grammar.Primary.assignment (.array rfl (.last ih rfl))

theorem run_assignment_error {l : Parser.Level} {t : Token} (hkind : t.kind = .punct .openBracket) {ts : List Token}
    {fin : Nat} {e : SyntaxError} (h : (l.list .closeBracket).run ⟨ts, fin⟩ = .error e) :
    (Parser.assignment l).run ⟨t :: ts, fin⟩ = .error e := by
  obtain ⟨kind, start, stop, newline⟩ := t
  cases hkind
  have hprimary : (Parser.primary l).run ⟨⟨.punct .openBracket, start, stop, newline⟩ :: ts, fin⟩ = .error e := by
    have harray : (do return Expr.array (← l.list .closeBracket)).run ⟨ts, fin⟩ = .error e :=
      Parser.run_bind_error h
    exact harray
  have hunary : (Parser.unary l).run ⟨⟨.punct .openBracket, start, stop, newline⟩ :: ts, fin⟩ = .error e := by
    rw [Parser.run_unary]
    exact Parser.run_bind_error hprimary
  rw [Parser.run_assignment]
  exact Parser.run_bind_error (Parser.run_bind_error hunary)

theorem bracketed_head_ne (n : Nat) (ts : List Token) :
    ∀ t ∈ (bracketed n ++ ts).head?, t.kind ≠ .punct .closeBracket := by
  intro t ht
  cases n <;> cases ht <;> nofun

theorem run_bracketed (n : Nat) (ts : List Token) (fin : Nat) :
    ∃ e, (Parser.assignment (Parser.level n)).run ⟨bracketed n ++ ts, fin⟩ = .error e := by
  induction n generalizing ts with
  | zero => exact ⟨_, rfl⟩
  | succ n ih =>
      obtain ⟨e, he⟩ := ih (⟨.punct .closeBracket, 0, 1, false⟩ :: ts)
      refine ⟨e, ?_⟩
      rw [bracketed, List.cons_append, List.append_assoc, List.singleton_append]
      refine run_assignment_error rfl ?_
      have hlist : (Parser.listItems (Parser.level n) .closeBracket
          ((bracketed n ++ ⟨.punct .closeBracket, 0, 1, false⟩ :: ts).length + 1)).run
            ⟨bracketed n ++ ⟨.punct .closeBracket, 0, 1, false⟩ :: ts, fin⟩ = .error e := by
        rw [Parser.listItems_eq_separated, Parser.run_separated_item (bracketed_head_ne n _)]
        exact Parser.run_bind_error he
      exact hlist

/-- In the deepest brackets that are allowed a template nests nothing any deeper and yet is refused. -/
theorem bracketed_template_refused :
    Grammar.Assignment (Grammar.Nested.holeless.within Parser.maxNesting) (significant (bracketed 128)) (arrays 128) ∧
      ∀ r, Parser.expression.run ⟨significant (bracketed 128), 258⟩ ≠ .ok r := by
  rw [significant_bracketed]
  refine ⟨bracketed_derives 128, fun r hr => ?_⟩
  obtain ⟨e, he⟩ := run_bracketed 128 [] 258
  rw [List.append_nil] at he
  have hrun : Parser.expression.run ⟨bracketed 128, 258⟩ = .error e := he
  rw [hrun] at hr
  cases hr

end ScriptRepl.Syntax
