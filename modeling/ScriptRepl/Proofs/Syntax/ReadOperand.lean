import ScriptRepl.Proofs.Syntax.Grammar

/-! The parsers read what the grammar derives, and nothing else. A parser stops where no longer phrase begins: before
a punctuator that binds too loosely for it. -/
namespace ScriptRepl.Syntax.Parser

open Grammar

/-! ### Where a phrase ends -/

/-- How tightly a punctuator binds to what is before it, if at all. -/
def tightness : Punct → Option Nat
  | .dot | .openBracket | .openParen => some 10
  | .question => some 1
  | .assign => some 0
  | p => (Operator.ofPunct? p).map (·.power + 1)

/-- What comes next binds less tightly to what is before it. -/
def Ends (bound : Nat) (ts : List Token) : Prop :=
  ∀ t ∈ ts.head?, ∀ p n, t.kind = .punct p → tightness p = some n → n < bound

theorem ends_nil (bound : Nat) : Ends bound [] :=
  nofun

theorem ends_cons {bound : Nat} {t : Token} {ts : List Token} {p : Punct} (hkind : t.kind = .punct p)
    (hp : ∀ n, tightness p = some n → n < bound) : Ends bound (t :: ts) := by
  intro t' ht' p' n hkind' hn
  cases ht'
  rw [hkind] at hkind'
  cases hkind'
  exact hp n hn

theorem Ends.mono {bound bound' : Nat} {ts : List Token} (h : Ends bound ts) (hle : bound ≤ bound') :
    Ends bound' ts :=
  fun t ht p n hkind hn => Nat.lt_of_lt_of_le (h t ht p n hkind hn) hle

theorem exists_of_not_ends {bound : Nat} {ts : List Token} (h : ¬ Ends bound ts) :
    ∃ t us p n, ts = t :: us ∧ t.kind = .punct p ∧ tightness p = some n ∧ bound ≤ n := by
  cases ts with
  | nil => exact absurd (ends_nil bound) h
  | cons t us =>
      by_contra hnone
      refine h fun t' ht' p n hkind hn => Nat.lt_of_not_le fun hle => hnone ?_
      cases ht'
      exact ⟨t, us, p, n, rfl, hkind, hn, hle⟩

theorem tightness_chain {p : Punct} {n : Nat} (h : tightness p = some n) (hn : 10 ≤ n) :
    p = .dot ∨ p = .openBracket ∨ p = .openParen := by
  cases p <;> simp [tightness, Operator.ofPunct?, Operator.power] at h ⊢ <;> omega

theorem tightness_operator {op : Operator} {p : Punct} (h : Operator.ofPunct? p = some op) :
    tightness p = some (op.power + 1) := by
  cases p <;> cases h <;> rfl

theorem operator_of_tightness {p : Punct} {n : Nat} (h : tightness p = some n) (hlow : 1 ≤ n) (hhigh : n < 10) :
    (p = .question ∧ n = 1) ∨ ∃ op, Operator.ofPunct? p = some op ∧ n = op.power + 1 := by
  cases p <;> simp [tightness, Operator.ofPunct?, Operator.power] at h ⊢ <;> omega

/-! ### Reading a phrase -/

section

variable {α β : Type} {p : Parse α} {f : α → Parse β} {i : Input}

theorem ok_of_run_bind {r : β × Input} (h : (p >>= f).run i = .ok r) :
    ∃ x i', p.run i = .ok (x, i') ∧ (f x).run i' = .ok r := by
  rw [StateT.run_bind] at h
  cases hp : p.run i with
  | error e =>
      rw [hp] at h
      cases h
  | ok pair =>
      rw [hp] at h
      exact ⟨pair.1, pair.2, rfl, h⟩

/-- A parser returns exactly when its input begins with such a phrase and the rest is such that it ends there. -/
structure Reads (parse : Parse α) (phrase : Phrase α) (ends : List Token → Prop) : Prop where
  sound : ∀ {ts fin x i}, parse.run ⟨ts, fin⟩ = .ok (x, i) →
    ∃ used rest, ts = used ++ rest ∧ i = ⟨rest, fin⟩ ∧ phrase used x ∧ ends rest
  complete : ∀ {used x rest fin}, phrase used x → ends rest →
    parse.run ⟨used ++ rest, fin⟩ = .ok (x, ⟨rest, fin⟩)

def anywhere : List Token → Prop :=
  fun _ => True

theorem reads_fail {phrase : Phrase α} {ends : List Token → Prop} (h : ∀ used x, ¬ phrase used x)
    (cause : SyntaxCause) : Reads (fail cause) phrase ends where
  sound hrun := by cases hrun
  complete hphrase := absurd hphrase (h _ _)

end

variable {l : Level} {d : Nested}

/-- The parsers of a level read its phrases. -/
structure Level.Reads (l : Level) (d : Nested) : Prop where
  assignment : Parser.Reads l.assignment d.assignment (Ends 0)
  binary : ∀ {stratum}, 1 ≤ stratum → stratum ≤ 8 →
    Parser.Reads (l.binary stratum) (d.operand stratum) (Ends (stratum + 1))
  unary : Parser.Reads l.unary d.unary (Ends 10)
  list : ∀ {close}, close = .closeBracket ∨ close = .closeParen →
    Parser.Reads (l.list close) (d.items close) anywhere
  object : Parser.Reads l.object (fun used e => ∃ fields, d.fields used fields ∧ e = .object fields) anywhere
  template : ∀ t : Template, Parser.Reads (l.template t)
    (fun used e => used = [] ∧ ∃ exprs, d.parts t.parts exprs ∧ e = .template t.head exprs) anywhere

/-! ### Single tokens -/

section

variable {α : Type} {m : Punct} {ts : List Token} {fin : Nat} {i : Input}

theorem eat_cases (m : Punct) (ts : List Token) (fin : Nat) :
    (∃ t us, ts = t :: us ∧ t.kind = .punct m ∧ (eat m).run ⟨ts, fin⟩ = .ok (true, ⟨us, fin⟩)) ∨
      ((∀ t ∈ ts.head?, t.kind ≠ .punct m) ∧ (eat m).run ⟨ts, fin⟩ = .ok (false, ⟨ts, fin⟩)) := by
  cases ts with
  | nil => exact .inr ⟨nofun, run_eat_nil m fin⟩
  | cons t us =>
      by_cases hkind : t.kind = .punct m
      · exact .inl ⟨t, us, rfl, hkind, run_eat_self hkind fin⟩
      · refine .inr ⟨?_, run_eat_other hkind fin⟩
        intro t' ht'
        cases ht'
        exact hkind

theorem of_run_expect (h : (expect m).run ⟨ts, fin⟩ = .ok ((), i)) :
    ∃ t us, ts = t :: us ∧ t.kind = .punct m ∧ i = ⟨us, fin⟩ := by
  obtain ⟨t, us, rfl, hkind, _⟩ | ⟨_, heat⟩ := eat_cases m ts fin
  · rw [run_expect_self hkind fin] at h
    cases h
    exact ⟨t, us, rfl, hkind, rfl⟩
  · rw [expect, run_bind_ok heat, if_neg Bool.false_ne_true] at h
    cases ts <;> cases h

/-- A phrase and the closing bracket behind it. -/
def closedBy (m : Punct) (parse : Parse α) : Parse α := do
  let x ← parse
  expect m
  return x

theorem Reads.closed {parse : Parse α} {phrase : Phrase α} (h : Reads parse phrase (Ends 0))
    (hclose : tightness m = none) :
    Reads (closedBy m parse)
      (fun used x => ∃ us t, used = us ++ [t] ∧ phrase us x ∧ t.kind = .punct m) anywhere where
  sound := by
    intro ts fin x i hrun
    obtain ⟨x', i', hparse, hrest⟩ := ok_of_run_bind hrun
    obtain ⟨us, rest, rfl, rfl, hphrase, _⟩ := h.sound hparse
    obtain ⟨_, i', hexpect, hpure⟩ := ok_of_run_bind hrest
    obtain ⟨t, rest, rfl, hkind, rfl⟩ := of_run_expect hexpect
    cases hpure
    exact ⟨us ++ [t], rest, List.append_cons us t rest, rfl, ⟨us, t, rfl, hphrase, hkind⟩, trivial⟩
  complete := by
    rintro used x rest fin ⟨us, t, rfl, hphrase, hkind⟩ -
    have hends : Ends 0 (t :: rest) := ends_cons hkind (by rw [hclose]; nofun)
    rw [List.append_assoc, List.singleton_append, closedBy, run_bind_ok (h.complete hphrase hends),
      run_bind_ok (run_expect_self hkind fin)]
    rfl

end

/-! ### Operands -/

theorem sound_primary (h : l.Reads d) {ts : List Token} {fin : Nat} {x : Expr} {i : Input}
    (hrun : (primary l).run ⟨ts, fin⟩ = .ok (x, i)) :
    ∃ used rest, ts = used ++ rest ∧ i = ⟨rest, fin⟩ ∧ Primary d used x := by
  cases ts with
  | nil => cases hrun
  | cons t ts =>
      obtain ⟨kind, start, stop, newline⟩ := t
      cases kind with
      | number y =>
          cases hrun
          exact ⟨[_], ts, rfl, rfl, .number rfl⟩
      | text s =>
          cases hrun
          exact ⟨[_], ts, rfl, rfl, .text rfl⟩
      | name s =>
          cases hrun
          exact ⟨[_], ts, rfl, rfl, .name rfl⟩
      | template t =>
          obtain ⟨_, rest, rfl, rfl, ⟨rfl, exprs, hparts, rfl⟩, _⟩ := (h.template t).sound hrun
          exact ⟨[_], rest, rfl, rfl, .template rfl hparts⟩
      | keyword k =>
          cases k with
          | literal y =>
              cases hrun
              exact ⟨[_], ts, rfl, rfl, .literal rfl⟩
          | decl kind => cases hrun
          | typeof => cases hrun
      | comment => cases hrun
      | punct p =>
          cases p with
          | openParen =>
              obtain ⟨_, rest, rfl, rfl, ⟨us, t, rfl, hinner, hclose⟩, _⟩ := (h.assignment.closed rfl).sound hrun
              exact ⟨_ :: (us ++ [t]), rest, rfl, rfl, .parens rfl hinner hclose⟩
          | openBracket =>
              have harray : (do return Expr.array (← l.list .closeBracket)).run ⟨ts, fin⟩ = .ok (x, i) := hrun
              obtain ⟨items, i', hlist, hpure⟩ := ok_of_run_bind harray
              obtain ⟨us, rest, rfl, rfl, hitems, _⟩ := (h.list (.inl rfl)).sound hlist
              cases hpure
              exact ⟨_ :: us, rest, rfl, rfl, .array rfl hitems⟩
          | openBrace =>
              obtain ⟨us, rest, rfl, rfl, ⟨fields, hfields, rfl⟩, _⟩ := h.object.sound hrun
              exact ⟨_ :: us, rest, rfl, rfl, .object rfl hfields⟩
          | _ => cases hrun

theorem complete_primary (h : l.Reads d) {used : List Token} {x : Expr} (hphrase : Primary d used x)
    (rest : List Token) (fin : Nat) : (primary l).run ⟨used ++ rest, fin⟩ = .ok (x, ⟨rest, fin⟩) := by
  cases hphrase with
  | @number t x hkind =>
      obtain ⟨kind, start, stop, newline⟩ := t
      cases hkind
      rfl
  | @text t s hkind =>
      obtain ⟨kind, start, stop, newline⟩ := t
      cases hkind
      rfl
  | @name t s hkind =>
      obtain ⟨kind, start, stop, newline⟩ := t
      cases hkind
      rfl
  | @literal t y hkind =>
      obtain ⟨kind, start, stop, newline⟩ := t
      cases hkind
      rfl
  | @template t tpl exprs hkind hparts =>
      obtain ⟨kind, start, stop, newline⟩ := t
      cases hkind
      have htemplate : (l.template tpl).run ⟨[] ++ rest, fin⟩ = .ok (.template tpl.head exprs, ⟨rest, fin⟩) :=
        (h.template tpl).complete ⟨rfl, exprs, hparts, rfl⟩ trivial
      exact htemplate
  | @parens t t' us e hopen hinner hclose =>
      obtain ⟨kind, start, stop, newline⟩ := t
      cases hopen
      exact (h.assignment.closed rfl).complete ⟨us, t', rfl, hinner, hclose⟩ trivial
  | @array t us items hopen hitems =>
      obtain ⟨kind, start, stop, newline⟩ := t
      cases hopen
      have harray : (do return Expr.array (← l.list .closeBracket)).run ⟨us ++ rest, fin⟩ =
          .ok (.array items, ⟨rest, fin⟩) := run_bind_ok ((h.list (.inl rfl)).complete hitems trivial)
      exact harray
  | @object t us fields hopen hfields =>
      obtain ⟨kind, start, stop, newline⟩ := t
      cases hopen
      exact h.object.complete ⟨fields, hfields, rfl⟩ trivial

/-! ### Members, indices and calls -/

theorem accept_eq_ok_iff {α : Type} {meaning : TokenKind → Option α} {ts : List Token} {fin : Nat} {x : α}
    {i : Input} :
    (accept meaning).run ⟨ts, fin⟩ = .ok (x, i) ↔
      ∃ t us, ts = t :: us ∧ meaning t.kind = some x ∧ i = ⟨us, fin⟩ := by
  cases ts with
  | nil => exact ⟨nofun, nofun⟩
  | cons t us =>
      rw [accept, run_bind_ok (run_peek t us fin), Option.bind_some]
      constructor
      · intro hrun
        cases hmeaning : meaning t.kind with
        | none =>
            rw [hmeaning] at hrun
            cases hrun
        | some y =>
            rw [hmeaning] at hrun
            cases hrun
            exact ⟨t, us, rfl, hmeaning, rfl⟩
      · rintro ⟨t', us', heq, hmeaning, rfl⟩
        cases heq
        rw [hmeaning]
        rfl

theorem run_chainTail_ends {ts : List Token} (h : Ends 10 ts) (n : Nat) (e : Expr) (fin : Nat) :
    (chainTail l n e).run ⟨ts, fin⟩ = .ok (e, ⟨ts, fin⟩) := by
  cases n with
  | zero => rfl
  | succ n =>
      cases ts with
      | nil => rfl
      | cons t us =>
          obtain ⟨kind, start, stop, newline⟩ := t
          cases kind with
          | punct p =>
              cases p with
              | dot | openBracket | openParen => exact absurd (h _ rfl _ 10 rfl rfl) (Nat.lt_irrefl 10)
              | _ => rfl
          | _ => rfl

theorem run_chainTail_index {t : Token} (hkind : t.kind = .punct .openBracket) (n : Nat) (e : Expr)
    (ts : List Token) (fin : Nat) :
    (chainTail l (n + 1) e).run ⟨t :: ts, fin⟩ =
      (closedBy .closeBracket l.assignment >>= fun key => chainTail l n (.index e key)).run ⟨ts, fin⟩ := by
  obtain ⟨kind, start, stop, newline⟩ := t
  cases hkind
  simp only [closedBy, bind_assoc, pure_bind]
  rfl

theorem run_chainTail_call {t : Token} (hkind : t.kind = .punct .openParen) (n : Nat) (e : Expr) (ts : List Token)
    (fin : Nat) :
    (chainTail l (n + 1) e).run ⟨t :: ts, fin⟩ =
      (l.list .closeParen >>= fun args => chainTail l n (.call e args)).run ⟨ts, fin⟩ := by
  obtain ⟨kind, start, stop, newline⟩ := t
  cases hkind
  rfl

theorem sound_chainTail (h : l.Reads d) {n : Nat} {us ts : List Token} {fin : Nat} {e x : Expr} {i : Input}
    (hn : ts.length ≤ n) (he : Chain d us e) (hrun : (chainTail l n e).run ⟨ts, fin⟩ = .ok (x, i)) :
    ∃ vs rest, ts = vs ++ rest ∧ i = ⟨rest, fin⟩ ∧ Chain d (us ++ vs) x ∧ Ends 10 rest := by
  induction n generalizing us ts e with
  | zero =>
      cases List.length_eq_zero_iff.mp (Nat.le_zero.mp hn)
      cases hrun
      exact ⟨[], [], rfl, rfl, by rwa [List.append_nil], ends_nil 10⟩
  | succ n ih =>
      by_cases hends : Ends 10 ts
      · rw [run_chainTail_ends hends] at hrun
        cases hrun
        exact ⟨[], ts, rfl, rfl, by rwa [List.append_nil], hends⟩
      · obtain ⟨t, ts, p, tight, rfl, hkind, htight, hle⟩ := exists_of_not_ends hends
        have hn' : ts.length ≤ n := Nat.le_of_succ_le_succ hn
        rcases tightness_chain htight hle with rfl | rfl | rfl
        · rw [run_chainTail_dot hkind] at hrun
          obtain ⟨key, i', haccept, htail⟩ := ok_of_run_bind hrun
          obtain ⟨t', ts, rfl, hkey, rfl⟩ := accept_eq_ok_iff.mp haccept
          obtain ⟨vs, rest, rfl, rfl, hphrase, hstops⟩ := ih (by simp at hn'; omega) (.member he hkind hkey) htail
          exact ⟨t :: t' :: vs, rest, rfl, rfl, by simpa using hphrase, hstops⟩
        · rw [run_chainTail_index hkind] at hrun
          obtain ⟨key, i', hclosed, htail⟩ := ok_of_run_bind hrun
          obtain ⟨_, ts, rfl, rfl, ⟨ws, t', rfl, hkey, hclose⟩, _⟩ := (h.assignment.closed rfl).sound hclosed
          obtain ⟨vs, rest, rfl, rfl, hphrase, hstops⟩ :=
            ih (by simp at hn'; omega) (.index he hkind hkey hclose) htail
          exact ⟨t :: (ws ++ [t'] ++ vs), rest, by simp, rfl, by simpa using hphrase, hstops⟩
        · rw [run_chainTail_call hkind] at hrun
          obtain ⟨args, i', hlist, htail⟩ := ok_of_run_bind hrun
          obtain ⟨ws, ts, rfl, rfl, hargs, _⟩ := (h.list (.inr rfl)).sound hlist
          obtain ⟨vs, rest, rfl, rfl, hphrase, hstops⟩ := ih (by simp at hn'; omega) (.call he hkind hargs) htail
          exact ⟨t :: (ws ++ vs), rest, by simp, rfl, by simpa using hphrase, hstops⟩

/-- With any bound for its steps that is not less than the number of tokens. -/
def Comes {α : Type} (parse : Nat → Parse α) (ts : List Token) (fin : Nat) (r : α × Input) : Prop :=
  ∀ n, ts.length ≤ n → (parse n).run ⟨ts, fin⟩ = .ok r

theorem Comes.of_cons {α : Type} {parse : Nat → Parse α} {t : Token} {ts : List Token} {fin : Nat} {r : α × Input}
    (h : ∀ n, ts.length ≤ n → (parse (n + 1)).run ⟨t :: ts, fin⟩ = .ok r) : Comes parse (t :: ts) fin r := by
  intro n hn
  obtain ⟨k, rfl, hk⟩ := exists_succ_of_length_le hn
  exact h k hk

/-- A chain is read up to its end, and then what comes behind it. -/
theorem complete_chain (h : l.Reads d) {us : List Token} {e : Expr} (he : Chain d us e) {rest : List Token}
    {fin : Nat} {r : Expr × Input} (hrest : Comes (fun n => chainTail l n e) rest fin r) :
    (primary l >>= chain l).run ⟨us ++ rest, fin⟩ = .ok r := by
  induction he generalizing rest with
  | primary hprimary =>
      rw [run_bind_ok (complete_primary h hprimary rest fin)]
      exact hrest rest.length (Nat.le_refl _)
  | @member us t t' e key _ hdot hkey ih =>
      rw [List.append_assoc]
      refine ih (.of_cons fun n hn => ?_)
      rw [run_chainTail_dot hdot]
      have hkey' : (accept memberName?).run ⟨t' :: rest, fin⟩ = .ok (key, ⟨rest, fin⟩) :=
        accept_eq_ok_iff.mpr ⟨t', rest, rfl, hkey, rfl⟩
      exact (run_bind_ok hkey').trans (hrest n (Nat.le_of_succ_le hn))
  | @index us vs t t' e key _ hopen hkey hclose ih =>
      rw [List.append_assoc]
      refine ih (.of_cons fun n hn => ?_)
      rw [run_chainTail_index hopen]
      refine (run_bind_ok ((h.assignment.closed rfl).complete ⟨vs, t', rfl, hkey, hclose⟩ trivial)).trans (hrest n ?_)
      simp at hn
      omega
  | @call us vs t e args _ hopen hargs ih =>
      rw [List.append_assoc]
      refine ih (.of_cons fun n hn => ?_)
      rw [run_chainTail_call hopen]
      refine (run_bind_ok ((h.list (.inr rfl)).complete hargs trivial)).trans (hrest n ?_)
      simp at hn
      omega

theorem reads_chain (h : l.Reads d) : Parser.Reads (primary l >>= chain l) (Chain d) (Ends 10) where
  sound := by
    intro ts fin x i hrun
    obtain ⟨e, i', hprimary, hchain⟩ := ok_of_run_bind hrun
    obtain ⟨us, ts, rfl, rfl, he⟩ := sound_primary h hprimary
    obtain ⟨vs, rest, rfl, rfl, hphrase, hends⟩ := sound_chainTail h (Nat.le_refl _) (.primary he) hchain
    exact ⟨us ++ vs, rest, (List.append_assoc ..).symm, rfl, hphrase, hends⟩
  complete := fun hphrase hends => complete_chain h hphrase fun n _ => run_chainTail_ends hends n _ _

/-- No operand begins with a unary operator. -/
theorem unaryOf?_of_operand {t : Token} {ts : List Token} {fin : Nat} {r : Expr × Input}
    (hrun : (primary l >>= chain l).run ⟨t :: ts, fin⟩ = .ok r) : unaryOf? t.kind = none := by
  obtain ⟨kind, start, stop, newline⟩ := t
  cases kind with
  | keyword k =>
      cases k with
      | typeof => cases hrun
      | _ => rfl
  | punct p =>
      cases p with
      | minus | plus | not => cases hrun
      | _ => rfl
  | _ => rfl

theorem reads_unary (h : l.Reads d) : Parser.Reads (unary l) (Unary d) (Ends 10) where
  sound := by
    intro ts fin x i hrun
    cases ts with
    | nil => cases hrun
    | cons t ts =>
        rw [run_unary] at hrun
        cases hop : unaryOf? t.kind with
        | some op =>
            rw [hop] at hrun
            obtain ⟨e, i', hoperand, hpure⟩ := ok_of_run_bind hrun
            obtain ⟨us, rest, rfl, rfl, he, hends⟩ := h.unary.sound hoperand
            cases hpure
            exact ⟨t :: us, rest, rfl, rfl, .operator hop he, hends⟩
        | none =>
            rw [hop] at hrun
            obtain ⟨us, rest, hts, rfl, he, hends⟩ := (reads_chain h).sound hrun
            exact ⟨us, rest, hts, rfl, .chain he, hends⟩
  complete := by
    intro used x rest fin hphrase hends
    cases hphrase with
    | chain he =>
        have hrun : (primary l >>= chain l).run ⟨used ++ rest, fin⟩ = .ok (x, ⟨rest, fin⟩) :=
          (reads_chain h).complete he hends
        cases hts : used ++ rest with
        | nil =>
            rw [hts] at hrun
            cases hrun
        | cons t ts =>
            rw [hts] at hrun
            rw [run_unary, unaryOf?_of_operand hrun]
            exact hrun
    | @operator t us op e hop he =>
        rw [List.cons_append, run_unary, hop]
        exact run_bind_ok (h.unary.complete he hends)

end ScriptRepl.Syntax.Parser
