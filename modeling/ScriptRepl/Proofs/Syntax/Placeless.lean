import Mathlib.Data.List.Forall2
import ScriptRepl.Proofs.Syntax.Sequence

/-! What a phrase means does not depend on where its tokens stand: neither their offsets nor those of their holes count,
and the line ends before them only close statements. -/
namespace ScriptRepl.Syntax

def Hole.bare (hole : Hole) : Hole :=
  { hole with offset := 0 }

def Template.bare (t : Template) : Template :=
  ⟨t.head, t.parts.map fun (hole, s) => (hole.bare, s)⟩

/-- What a token is, wherever it stands. -/
def TokenKind.bare : TokenKind → TokenKind
  | .template t => .template t.bare
  | kind => kind

theorem TokenKind.eq_of_bare {kind kind' : TokenKind} (h : kind'.bare = kind.bare) (hkind : ∀ t, kind ≠ .template t) :
    kind' = kind := by
  cases kind with
  | template t => exact absurd rfl (hkind t)
  | _ => cases kind' <;> first | exact h | cases h

theorem TokenKind.template_of_bare {kind : TokenKind} {t : Template} (h : kind.bare = (TokenKind.template t).bare) :
    ∃ t', kind = .template t' ∧ t'.bare = t.bare := by
  cases kind with
  | template t' => exact ⟨t', rfl, TokenKind.template.inj h⟩
  | _ => cases h

/-- The same tokens, wherever they stand. -/
def Alike (us us' : List Token) : Prop :=
  us'.map (·.kind.bare) = us.map (·.kind.bare)

section

variable {t t' : Token} {us us' vs : List Token} {kind : TokenKind}

theorem kind_of_bare (h : t'.kind.bare = t.kind.bare) (hkind : t.kind = kind) (hother : ∀ t, kind ≠ .template t) :
    t'.kind = kind := by
  subst hkind
  exact TokenKind.eq_of_bare h hother

theorem Alike.of_nil (h : Alike [] us') : us' = [] :=
  List.map_eq_nil_iff.mp h

theorem Alike.of_cons (h : Alike (t :: us) us') :
    ∃ t' vs, us' = t' :: vs ∧ t'.kind.bare = t.kind.bare ∧ Alike us vs :=
  List.map_eq_cons_iff.mp h

theorem Alike.of_append (h : Alike (us ++ vs) us') : ∃ a b, us' = a ++ b ∧ Alike us a ∧ Alike vs b := by
  unfold Alike at h
  rw [List.map_append] at h
  exact List.map_eq_append_iff.mp h

theorem Alike.of_singleton (h : Alike [t] us') : ∃ t', us' = [t'] ∧ t'.kind.bare = t.kind.bare := by
  obtain ⟨t', vs, rfl, hkind, hvs⟩ := h.of_cons
  obtain rfl := hvs.of_nil
  exact ⟨t', rfl, hkind⟩

end

namespace Grammar

/-! ### Expressions -/

/-- The phrases of a level do not see where their tokens stand. -/
structure Nested.Placeless (deeper : Nested) : Prop where
  assignment : ∀ {us us' e}, deeper.assignment us e → Alike us us' → deeper.assignment us' e
  operand : ∀ {stratum us us' e}, deeper.operand stratum us e → Alike us us' → deeper.operand stratum us' e
  unary : ∀ {us us' e}, deeper.unary us e → Alike us us' → deeper.unary us' e
  items : ∀ {close us us' es}, deeper.items close us es → Alike us us' → deeper.items close us' es
  fields : ∀ {us us' fields}, deeper.fields us fields → Alike us us' → deeper.fields us' fields
  parts : ∀ {t t' : Template} {exprs}, deeper.parts t.parts exprs → t'.bare = t.bare → deeper.parts t'.parts exprs

theorem Separated.alike {α : Type} {close : Punct} {item : Phrase α}
    (hitem : ∀ {us us' x}, item us x → Alike us us' → item us' x) {us us' : List Token} {xs : List α}
    (h : Separated close item us xs) (halike : Alike us us') : Separated close item us' xs := by
  induction h generalizing us' with
  | close hclose =>
      obtain ⟨t, rfl, ht⟩ := halike.of_singleton
      exact .close (kind_of_bare ht hclose nofun)
  | last hx hclose =>
      obtain ⟨us, vs, rfl, hus, hvs⟩ := halike.of_append
      obtain ⟨t, rfl, ht⟩ := hvs.of_singleton
      exact .last (hitem hx hus) (kind_of_bare ht hclose nofun)
  | more hx hcomma _ ih =>
      obtain ⟨us, ws, rfl, hus, hws⟩ := halike.of_append
      obtain ⟨t, vs, rfl, ht, hvs⟩ := hws.of_cons
      exact .more (hitem hx hus) (kind_of_bare ht hcomma nofun) (ih hvs)

theorem memberName?_bare (kind : TokenKind) : Parser.memberName? kind.bare = Parser.memberName? kind := by
  cases kind <;> rfl

theorem unaryOf?_bare (kind : TokenKind) : Parser.unaryOf? kind.bare = Parser.unaryOf? kind := by
  cases kind <;> rfl

theorem fieldKey?_bare (kind : TokenKind) : fieldKey? kind.bare = fieldKey? kind := by
  cases kind <;> rfl

section

variable {d : Nested} {us us' : List Token} {e : Expr}

theorem Primary.alike (hd : d.Placeless) (h : Primary d us e) (halike : Alike us us') : Primary d us' e := by
  cases h with
  | number h =>
      obtain ⟨t, rfl, ht⟩ := halike.of_singleton
      exact .number (kind_of_bare ht h nofun)
  | text h =>
      obtain ⟨t, rfl, ht⟩ := halike.of_singleton
      exact .text (kind_of_bare ht h nofun)
  | name h =>
      obtain ⟨t, rfl, ht⟩ := halike.of_singleton
      exact .name (kind_of_bare ht h nofun)
  | literal h =>
      obtain ⟨t, rfl, ht⟩ := halike.of_singleton
      exact .literal (kind_of_bare ht h nofun)
  | @template _ template _ h hparts =>
      obtain ⟨t, rfl, ht⟩ := halike.of_singleton
      rw [h] at ht
      obtain ⟨template', hkind, hbare⟩ := TokenKind.template_of_bare ht
      have hhead : template'.head = template.head := (Template.mk.inj hbare).1
      rw [← hhead]
      exact .template hkind (hd.parts hparts hbare)
  | parens hopen hinner hclose =>
      obtain ⟨t, vs, rfl, ht, hvs⟩ := halike.of_cons
      obtain ⟨us, ws, rfl, hus, hws⟩ := hvs.of_append
      obtain ⟨t', rfl, ht'⟩ := hws.of_singleton
      exact .parens (kind_of_bare ht hopen nofun) (hd.assignment hinner hus) (kind_of_bare ht' hclose nofun)
  | array hopen hitems =>
      obtain ⟨t, us, rfl, ht, hus⟩ := halike.of_cons
      exact .array (kind_of_bare ht hopen nofun) (hd.items hitems hus)
  | object hopen hfields =>
      obtain ⟨t, us, rfl, ht, hus⟩ := halike.of_cons
      exact .object (kind_of_bare ht hopen nofun) (hd.fields hfields hus)

theorem Chain.alike (hd : d.Placeless) (h : Chain d us e) (halike : Alike us us') : Chain d us' e := by
  induction h generalizing us' with
  | primary h => exact .primary (h.alike hd halike)
  | member _ hdot hkey ih =>
      obtain ⟨us, vs, rfl, hus, hvs⟩ := halike.of_append
      obtain ⟨t, ws, rfl, ht, hws⟩ := hvs.of_cons
      obtain ⟨t', rfl, ht'⟩ := hws.of_singleton
      rw [← memberName?_bare, ← ht', memberName?_bare] at hkey
      exact .member (ih hus) (kind_of_bare ht hdot nofun) hkey
  | index _ hopen hkey hclose ih =>
      obtain ⟨us, ws, rfl, hus, hws⟩ := halike.of_append
      obtain ⟨t, ws, rfl, ht, hws⟩ := hws.of_cons
      obtain ⟨vs, ws, rfl, hvs, hws⟩ := hws.of_append
      obtain ⟨t', rfl, ht'⟩ := hws.of_singleton
      exact .index (ih hus) (kind_of_bare ht hopen nofun) (hd.assignment hkey hvs) (kind_of_bare ht' hclose nofun)
  | call _ hopen hargs ih =>
      obtain ⟨us, ws, rfl, hus, hws⟩ := halike.of_append
      obtain ⟨t, vs, rfl, ht, hvs⟩ := hws.of_cons
      exact .call (ih hus) (kind_of_bare ht hopen nofun) (hd.items hargs hvs)

theorem Unary.alike (hd : d.Placeless) (h : Unary d us e) (halike : Alike us us') : Unary d us' e := by
  cases h with
  | chain h => exact .chain (h.alike hd halike)
  | operator hop hoperand =>
      obtain ⟨t, us, rfl, ht, hus⟩ := halike.of_cons
      rw [← unaryOf?_bare, ← ht, unaryOf?_bare] at hop
      exact .operator hop (hd.unary hoperand hus)

theorem Binary.alike {stratum : Nat} (hd : d.Placeless) (h : Binary d stratum us e) (halike : Alike us us') :
    Binary d stratum us' e := by
  induction h generalizing us' with
  | unary h => exact .unary (h.alike hd halike)
  | power hleft hop hright =>
      obtain ⟨us, ws, rfl, hus, hws⟩ := halike.of_append
      obtain ⟨t, vs, rfl, ht, hvs⟩ := hws.of_cons
      exact .power (hleft.alike hd hus) (kind_of_bare ht hop nofun) (hd.operand hright hvs)
  | tighter _ ih => exact .tighter (ih halike)
  | operator _ hop hkind hright ih =>
      obtain ⟨us, ws, rfl, hus, hws⟩ := halike.of_append
      obtain ⟨t, vs, rfl, ht, hvs⟩ := hws.of_cons
      exact .operator (ih hus) hop (kind_of_bare ht hkind nofun) (hd.operand hright hvs)

theorem Conditional.alike (hd : d.Placeless) (h : Conditional d us e) (halike : Alike us us') :
    Conditional d us' e := by
  cases h with
  | binary h => exact .binary (h.alike hd halike)
  | conditional htest hquestion hyes hcolon hno =>
      obtain ⟨us, ws, rfl, hus, hws⟩ := halike.of_append
      obtain ⟨t, ws, rfl, ht, hws⟩ := hws.of_cons
      obtain ⟨vs, ws, rfl, hvs, hws⟩ := hws.of_append
      obtain ⟨t', ws, rfl, ht', hws⟩ := hws.of_cons
      exact .conditional (htest.alike hd hus) (kind_of_bare ht hquestion nofun) (hd.assignment hyes hvs)
        (kind_of_bare ht' hcolon nofun) (hd.assignment hno hws)

theorem Assignment.alike (hd : d.Placeless) (h : Assignment d us e) (halike : Alike us us') :
    Assignment d us' e := by
  cases h with
  | conditional h => exact .conditional (h.alike hd halike)
  | assign htarget hbuild hassign hvalue =>
      obtain ⟨us, ws, rfl, hus, hws⟩ := halike.of_append
      obtain ⟨t, vs, rfl, ht, hvs⟩ := hws.of_cons
      exact .assign (htarget.alike hd hus) hbuild (kind_of_bare ht hassign nofun) (hd.assignment hvalue hvs)

theorem Field.alike {field : String × Expr} (hd : d.Placeless) (h : Field d us field) (halike : Alike us us') :
    Field d us' field := by
  cases h with
  | name h =>
      obtain ⟨t, rfl, ht⟩ := halike.of_singleton
      exact .name (kind_of_bare ht h nofun)
  | keyed hkey hcolon hvalue =>
      obtain ⟨t, ws, rfl, ht, hws⟩ := halike.of_cons
      obtain ⟨t', us, rfl, ht', hus⟩ := hws.of_cons
      rw [← fieldKey?_bare, ← ht, fieldKey?_bare] at hkey
      exact .keyed hkey (kind_of_bare ht' hcolon nofun) (hvalue.alike hd hus)

end

/-- A hole is read as a source of its own. -/
theorem Parts.bare {d : Nested} {holes holes' : List (Hole × String)} {exprs : List (Expr × String)}
    (h : Parts d holes exprs)
    (hbare : (holes'.map fun (hole, s) => (hole.bare, s)) = holes.map fun (hole, s) => (hole.bare, s)) :
    Parts d holes' exprs := by
  induction h generalizing holes' with
  | nil =>
      obtain rfl : holes' = [] := List.map_eq_nil_iff.mp hbare
      exact .nil
  | @cons hole s _ _ _ hexpr _ ih =>
      obtain ⟨⟨hole', s'⟩, holes, rfl, hpart, hmore⟩ := List.map_eq_cons_iff.mp hbare
      obtain ⟨hhole, rfl⟩ : hole'.bare = hole.bare ∧ s' = s := Prod.mk.inj hpart
      have hsource : hole'.source = hole.source := (Hole.mk.inj hhole).2
      rw [← hsource] at hexpr
      exact .cons hexpr (ih hmore)

theorem Nested.placeless_above {d : Nested} (h : d.Placeless) : d.above.Placeless where
  assignment := Assignment.alike h
  operand := Binary.alike h
  unary := Unary.alike h
  items hitems := @Separated.alike _ _ (Assignment d) (Assignment.alike h) _ _ _ hitems
  fields hfields := @Separated.alike _ _ (Field d) (Field.alike h) _ _ _ hfields
  parts hparts hbare := hparts.bare (congrArg Template.parts hbare)

theorem Nested.placeless_within (room : Nat) : (Nested.none.within room).Placeless := by
  induction room with
  | zero => exact ⟨nofun, nofun, nofun, nofun, nofun, nofun⟩
  | succ room ih => exact Nested.placeless_above ih

theorem Expression.alike {us us' : List Token} {e : Expr} (h : Expression us e) (halike : Alike us us') :
    Expression us' e :=
  Assignment.alike (Nested.placeless_within Parser.maxNesting) h halike

end Grammar

/-! ### Programs -/

/-- The same tokens, wherever they stand, and where a line end stood before a token one still does. -/
def Respaced : List Token → List Token → Prop :=
  List.Forall₂ fun t t' => t'.kind.bare = t.kind.bare ∧ (t.newlineBefore = true → t'.newlineBefore = true)

section

variable {us us' vs : List Token}

theorem Respaced.refl (us : List Token) : Respaced us us :=
  List.forall₂_same.mpr fun _ _ => ⟨rfl, id⟩

theorem Respaced.trans (h : Respaced us us') (h' : Respaced us' vs) : Respaced us vs := by
  induction h generalizing vs with
  | nil => exact h'
  | cons hfirst _ ih =>
      obtain ⟨t, ts, hsecond, hts, rfl⟩ := List.forall₂_cons_left_iff.mp h'
      exact .cons ⟨hsecond.1.trans hfirst.1, hsecond.2 ∘ hfirst.2⟩ (ih hts)

theorem Respaced.alike (h : Respaced us us') : Alike us us' := by
  induction h with
  | nil => rfl
  | cons hfirst _ ih => exact congrArg₂ List.cons hfirst.1 ih

theorem Respaced.of_append (h : Respaced (us ++ vs) us') :
    ∃ a b, us' = a ++ b ∧ Respaced us a ∧ Respaced vs b := by
  induction us generalizing us' with
  | nil => exact ⟨[], us', rfl, .nil, h⟩
  | cons t us ih =>
      obtain ⟨t', ts, hfirst, hts, rfl⟩ := List.forall₂_cons_left_iff.mp h
      obtain ⟨a, b, rfl, ha, hb⟩ := ih hts
      exact ⟨t' :: a, b, rfl, .cons hfirst ha, hb⟩

theorem isComment_bare (kind : TokenKind) : kind.bare.isComment = kind.isComment := by
  cases kind <;> rfl

theorem Respaced.significant (h : Respaced us us') : Respaced (significant us) (significant us') := by
  refine List.rel_filter (fun t t' hsame => ?_) h
  have hcomment : t'.kind.isComment = t.kind.isComment := by
    rw [← isComment_bare, hsame.1, isComment_bare]
  dsimp only
  rw [hcomment]

end

namespace Grammar

variable {us us' : List Token} {s : Stmt} {p : Syntax.Program}

theorem Body.alike (h : Body us s) (halike : Alike us us') : Body us' s := by
  cases h with
  | expr h => exact .expr (h.alike halike)
  | bare hkey hname hkind =>
      obtain ⟨t, ts, rfl, ht, hts⟩ := halike.of_cons
      obtain ⟨t', rfl, ht'⟩ := hts.of_singleton
      exact .bare (kind_of_bare ht hkey nofun) (kind_of_bare ht' hname nofun) hkind
  | valued hkey hname hassign hvalue =>
      obtain ⟨t, ts, rfl, ht, hts⟩ := halike.of_cons
      obtain ⟨t', ts, rfl, ht', hts⟩ := hts.of_cons
      obtain ⟨t'', us, rfl, ht'', hus⟩ := hts.of_cons
      exact .valued (kind_of_bare ht hkey nofun) (kind_of_bare ht' hname nofun) (kind_of_bare ht'' hassign nofun)
        (hvalue.alike hus)

/-- What holds of the punctuator that comes next holds of the one in its place. -/
theorem head_of_respaced (h : Respaced us us') {t' : Token} (ht' : t' ∈ us'.head?) :
    ∃ t ∈ us.head?, t.kind.bare = t'.kind.bare ∧ (t.newlineBefore = true → t'.newlineBefore = true) := by
  cases h with
  | nil => cases ht'
  | @cons t _ _ _ hfirst _ =>
      cases ht'
      exact ⟨t, rfl, hfirst.1.symm, hfirst.2⟩

theorem BodyEnds.respaced (h : BodyEnds s us) (hrespaced : Respaced us us') : BodyEnds s us' := by
  have hends : Parser.Ends 0 us → Parser.Ends 0 us' := by
    intro hends t' ht' m n hkind hn
    obtain ⟨t, ht, hbare, _⟩ := head_of_respaced hrespaced ht'
    exact hends t ht m n (kind_of_bare hbare hkind nofun) hn
  cases s with
  | expr e => exact hends h
  | empty => exact hends h
  | decl kind name init? =>
      cases init? with
      | some e => exact hends h
      | none =>
          intro t' ht' hkind
          obtain ⟨t, ht, hbare, _⟩ := head_of_respaced hrespaced ht'
          exact h t ht (kind_of_bare hbare hkind nofun)

theorem EndsLine.respaced (h : EndsLine us) (hrespaced : Respaced us us') : EndsLine us' := by
  intro t' ht'
  obtain ⟨t, ht, hbare, hline⟩ := head_of_respaced hrespaced ht'
  obtain ⟨hnewline, hother⟩ := h t ht
  exact ⟨hline hnewline, fun hkind => hother (kind_of_bare hbare hkind nofun)⟩

/-- More line ends between the tokens do not matter where a program can be read without. -/
theorem Program.respaced (h : Program us p) (hrespaced : Respaced us us') : Program us' p := by
  induction h generalizing us' with
  | nil =>
      cases hrespaced
      exact .nil
  | empty hclose _ ih =>
      obtain ⟨t, us, hfirst, hus, rfl⟩ := List.forall₂_cons_left_iff.mp hrespaced
      exact .empty (kind_of_bare hfirst.1 hclose nofun) (ih hus)
  | closed hbody hclose _ ih =>
      obtain ⟨us, ws, rfl, hus, hws⟩ := hrespaced.of_append
      obtain ⟨t, vs, hfirst, hvs, rfl⟩ := List.forall₂_cons_left_iff.mp hws
      exact .closed (hbody.alike hus.alike) (kind_of_bare hfirst.1 hclose nofun) (ih hvs)
  | ended hbody hends hline _ ih =>
      obtain ⟨us, vs, rfl, hus, hvs⟩ := hrespaced.of_append
      exact .ended (hbody.alike hus.alike) (hends.respaced hvs) (hline.respaced hvs) (ih hvs)

end Grammar

end ScriptRepl.Syntax
