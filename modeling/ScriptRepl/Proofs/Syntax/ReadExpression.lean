import ScriptRepl.Proofs.Syntax.ReadOperand

/-! The parsers by precedence read the strata of the grammar. What has been read so far can stand to the left of
every operator that may come next: those that bind tighter are in the right operand already. -/
namespace ScriptRepl.Syntax.Parser

open Grammar

section

variable {l : Level} {d : Nested}

/-! ### The steps of the loop -/

theorem run_binaryTail_ends {least : Nat} {ts : List Token} (h : Ends (least + 1) ts) (n : Nat) (left : Expr)
    (fin : Nat) : (binaryTail l least n left).run ⟨ts, fin⟩ = .ok (left, ⟨ts, fin⟩) := by
  cases n with
  | zero => rfl
  | succ n =>
      cases ts with
      | nil => rfl
      | cons t us =>
          obtain ⟨kind, start, stop, newline⟩ := t
          cases kind with
          | punct p =>
              by_cases hp : p = .question
              · subst hp
                have hlt : 1 < least + 1 := h _ rfl _ 1 rfl rfl
                obtain ⟨k, rfl⟩ := Nat.exists_eq_succ_of_ne_zero (Nat.ne_zero_of_lt (Nat.lt_of_succ_lt_succ hlt))
                rfl
              · rw [run_binaryTail hp]
                cases hop : Operator.ofPunct? p with
                | none => rfl
                | some op =>
                    have hlt : op.power + 1 < least + 1 := h _ rfl _ _ rfl (tightness_operator hop)
                    exact if_pos (Nat.lt_of_succ_lt_succ hlt)
          | _ => rfl

theorem run_binaryTail_operator {least : Nat} {t : Token} {p : Punct} {op : Operator} (hkind : t.kind = .punct p)
    (hop : Operator.ofPunct? p = some op) (hpower : least ≤ op.power) (n : Nat) (left : Expr) (ts : List Token)
    (fin : Nat) :
    (binaryTail l least (n + 1) left).run ⟨t :: ts, fin⟩ =
      (l.binary op.rightPower >>= fun right => binaryTail l least n (op.build left right)).run ⟨ts, fin⟩ := by
  have hp : p ≠ .question := by
    rintro rfl
    cases hop
  obtain ⟨kind, start, stop, newline⟩ := t
  cases hkind
  rw [run_binaryTail hp, hop]
  exact if_neg (Nat.not_lt.mpr hpower)

/-- The two branches of a conditional. -/
def branches (l : Level) : Parse (Expr × Expr) := do
  let yes ← closedBy .colon l.assignment
  let no ← l.assignment
  return (yes, no)

theorem run_binaryTail_question {t : Token} (hkind : t.kind = .punct .question) (n : Nat) (left : Expr)
    (ts : List Token) (fin : Nat) :
    (binaryTail l 0 (n + 1) left).run ⟨t :: ts, fin⟩ =
      (branches l >>= fun both => binaryTail l 0 n (.conditional left both.1 both.2)).run ⟨ts, fin⟩ := by
  obtain ⟨kind, start, stop, newline⟩ := t
  cases hkind
  simp only [branches, closedBy, bind_assoc, pure_bind]
  rfl

theorem reads_branches (h : l.Reads d) :
    Parser.Reads (branches l) (fun used both => ∃ us t vs, used = us ++ t :: vs ∧ d.assignment us both.1 ∧
      t.kind = .punct .colon ∧ d.assignment vs both.2) (Ends 0) where
  sound := by
    intro ts fin both i hrun
    obtain ⟨yes, i', hyes, hrest⟩ := ok_of_run_bind hrun
    obtain ⟨_, ts, rfl, rfl, ⟨us, t, rfl, hphrase, hcolon⟩, _⟩ := (h.assignment.closed rfl).sound hyes
    obtain ⟨no, i', hno, hpure⟩ := ok_of_run_bind hrest
    obtain ⟨vs, rest, rfl, rfl, hphrase', hends⟩ := h.assignment.sound hno
    cases hpure
    exact ⟨us ++ t :: vs, rest, by simp, rfl, ⟨us, t, vs, rfl, hphrase, hcolon, hphrase'⟩, hends⟩
  complete := by
    rintro used ⟨yes, no⟩ rest fin ⟨us, t, vs, rfl, hyes, hcolon, hno⟩ hends
    rw [List.append_cons, List.append_assoc, branches,
      run_bind_ok ((h.assignment.closed rfl).complete ⟨us, t, rfl, hyes, hcolon⟩ trivial),
      run_bind_ok (h.assignment.complete hno hends)]
    rfl

/-! ### What can stand to the left of an operator -/

/-- To the left of `**` stands a unary expression, to the left of any other operator one of its own stratum. The
conditional has power 0. -/
def Left (d : Nested) (power : Nat) : Phrase Expr :=
  if power = 8 then Unary d else Binary d (max power 1)

/-- Before a token that binds less tightly than the bound. -/
def Lefts (d : Nested) (bound : Nat) (us : List Token) (e : Expr) : Prop :=
  ∀ power, power + 1 < bound → power ≤ 8 → Left d power us e

theorem lefts_of_unary {us : List Token} {e : Expr} (h : Unary d us e) (bound : Nat) : Lefts d bound us e := by
  intro power _ hle
  unfold Left
  split
  · exact h
  · exact (Binary.unary h).of_le (by omega)

theorem power_bounds (op : Operator) : 1 ≤ op.power ∧ op.power ≤ 8 := by
  cases op with
  | logical op => cases op <;> decide
  | binary op => cases op <;> decide

/-- The right operand of `**` is of the same stratum, that of any other operator of the next one. -/
theorem rightPower_eq (op : Operator) :
    (op = .binary .pow ∧ op.power = 8 ∧ op.rightPower = 8) ∨ (op.power ≤ 7 ∧ op.rightPower = op.power + 1) := by
  cases op with
  | logical op => cases op <;> exact .inr ⟨by decide, rfl⟩
  | binary op =>
      cases op with
      | pow => exact .inl ⟨rfl, rfl, rfl⟩
      | _ => exact .inr ⟨by decide, rfl⟩

/-- Behind an operator and its right operand. -/
theorem lefts_of_binary {op : Operator} {us : List Token} {e : Expr} (h : Binary d op.power us e) :
    Lefts d (op.rightPower + 1) us e := by
  intro power hlt _
  have hpower : max power 1 ≤ op.power ∧ power ≠ 8 := by
    have hpos := (power_bounds op).1
    rcases rightPower_eq op with ⟨_, hop, hright⟩ | ⟨hop, hright⟩ <;> omega
  rw [Left, if_neg hpower.2]
  exact h.of_le hpower.1

theorem binary_of_left {op : Operator} {p : Punct} {us vs : List Token} {t : Token} {left right : Expr}
    (hleft : Left d op.power us left) (hop : Operator.ofPunct? p = some op) (hkind : t.kind = .punct p)
    (hright : d.operand op.rightPower vs right) : Binary d op.power (us ++ t :: vs) (op.build left right) := by
  obtain ⟨rfl, _, _⟩ | ⟨hle, hnext⟩ := rightPower_eq op
  · have hp : p = .power := by
      cases p <;> cases hop
      rfl
    subst hp
    exact .power hleft hkind hright
  · have hne : op.power ≠ 8 := by omega
    rw [Left, if_neg hne, Nat.max_eq_left (power_bounds op).1] at hleft
    rw [hnext] at hright
    exact .operator hleft (mem_operators_iff.mpr ⟨op, hop, rfl, hne, rfl⟩) hkind hright

/-! ### Operators -/

/-- What is left of a conditional is a phrase of the loosest stratum. -/
def Stratum (d : Nested) : (least : Nat) → Phrase Expr
  | 0 => Conditional d
  | least + 1 => Binary d (least + 1)

theorem stratum_of_binary {least power : Nat} {us : List Token} {e : Expr} (h : Binary d power us e)
    (hle : least ≤ power) (hpos : 1 ≤ power) : Stratum d least us e := by
  cases least with
  | zero => exact .binary (h.of_le hpos)
  | succ least => exact h.of_le hle

theorem sound_binaryTail (h : l.Reads d) {least n bound : Nat} {us ts : List Token} {fin : Nat} {left x : Expr}
    {i : Input} (hn : ts.length ≤ n) (hbound : bound ≤ 10) (hends : Ends bound ts) (hlefts : Lefts d bound us left)
    (hleft : Stratum d least us left) (hrun : (binaryTail l least n left).run ⟨ts, fin⟩ = .ok (x, i)) :
    ∃ vs rest, ts = vs ++ rest ∧ i = ⟨rest, fin⟩ ∧ Stratum d least (us ++ vs) x ∧ Ends (least + 1) rest := by
  induction n generalizing bound us ts left with
  | zero =>
      cases List.length_eq_zero_iff.mp (Nat.le_zero.mp hn)
      cases hrun
      exact ⟨[], [], rfl, rfl, by rwa [List.append_nil], ends_nil _⟩
  | succ n ih =>
      by_cases hstop : Ends (least + 1) ts
      · rw [run_binaryTail_ends hstop] at hrun
        cases hrun
        exact ⟨[], ts, rfl, rfl, by rwa [List.append_nil], hstop⟩
      · obtain ⟨t, ts, p, tight, rfl, hkind, htight, hle⟩ := exists_of_not_ends hstop
        have hn' : ts.length ≤ n := Nat.le_of_succ_le_succ hn
        have hlt : tight < bound := hends t rfl p tight hkind htight
        obtain ⟨rfl, rfl⟩ | ⟨op, hop, rfl⟩ := operator_of_tightness htight (by omega) (by omega)
        · obtain rfl : least = 0 := by omega
          have htest : Left d 0 us left := hlefts 0 hlt (Nat.zero_le 8)
          rw [run_binaryTail_question hkind] at hrun
          obtain ⟨⟨yes, no⟩, i', hbranches, htail⟩ := ok_of_run_bind hrun
          obtain ⟨_, ts, rfl, rfl, ⟨vs, t', ws, rfl, hyes, hcolon, hno⟩, hends'⟩ := (reads_branches h).sound hbranches
          -- the last branch takes in all that could follow it
          rw [run_binaryTail_ends (hends'.mono (Nat.zero_le _))] at htail
          cases htail
          exact ⟨t :: (vs ++ t' :: ws), ts, rfl, rfl, .conditional htest hkind hyes hcolon hno,
            hends'.mono (Nat.zero_le _)⟩
        · have hpower := power_bounds op
          rw [run_binaryTail_operator hkind hop (by omega)] at hrun
          obtain ⟨right, i', hoperand, htail⟩ := ok_of_run_bind hrun
          have hrightPower : 1 ≤ op.rightPower ∧ op.rightPower ≤ 8 := by
            rcases rightPower_eq op with ⟨_, _, hright⟩ | ⟨_, hright⟩ <;> omega
          obtain ⟨ws, ts, rfl, rfl, hright, hends'⟩ := (h.binary hrightPower.1 hrightPower.2).sound hoperand
          have hphrase := binary_of_left (hlefts op.power hlt hpower.2) hop hkind hright
          obtain ⟨vs, rest, rfl, rfl, hphrase', hstops⟩ := ih (by simp at hn'; omega) (by omega) hends'
            (lefts_of_binary hphrase) (stratum_of_binary hphrase (by omega) hpower.1) htail
          exact ⟨t :: (ws ++ vs), rest, by simp, rfl, by simpa using hphrase', hstops⟩

theorem sound_binary (h : l.Reads d) {least : Nat} (hle : least ≤ 8) {ts : List Token} {fin : Nat} {x : Expr}
    {i : Input} (hrun : (binary l least).run ⟨ts, fin⟩ = .ok (x, i)) :
    ∃ used rest, ts = used ++ rest ∧ i = ⟨rest, fin⟩ ∧ Stratum d least used x ∧ Ends (least + 1) rest := by
  obtain ⟨left, i', hunary, htail⟩ := ok_of_run_bind hrun
  obtain ⟨us, ts, rfl, rfl, hleft, hends⟩ := (reads_unary h).sound hunary
  obtain ⟨vs, rest, rfl, rfl, hphrase, hstops⟩ :=
    sound_binaryTail h (Nat.le_refl _) (Nat.le_refl 10) hends (lefts_of_unary hleft 10)
      (stratum_of_binary (.unary hleft) hle (by decide)) htail
  exact ⟨us ++ vs, rest, (List.append_assoc ..).symm, rfl, hphrase, hstops⟩

/-- Behind an expression of a stratum comes nothing that binds tighter than its operators do. -/
def behind (stratum : Nat) : Nat :=
  min (stratum + 2) 9

theorem comes_operator (h : l.Reads d) {least : Nat} {op : Operator} {p : Punct} {t : Token} {vs rest : List Token}
    {left right : Expr} {fin : Nat} {r : Expr × Input} (hop : Operator.ofPunct? p = some op)
    (hkind : t.kind = .punct p) (hle : least ≤ op.power) (hright : d.operand op.rightPower vs right)
    (hends : Ends (op.rightPower + 1) rest)
    (hrest : Comes (fun n => binaryTail l least n (op.build left right)) rest fin r) :
    Comes (fun n => binaryTail l least n left) (t :: (vs ++ rest)) fin r := by
  have hrightPower : 1 ≤ op.rightPower ∧ op.rightPower ≤ 8 := by
    rcases rightPower_eq op with ⟨_, _, hright⟩ | ⟨_, hright⟩ <;> omega
  refine .of_cons fun n hn => ?_
  rw [run_binaryTail_operator hkind hop hle]
  refine (run_bind_ok ((h.binary hrightPower.1 hrightPower.2).complete hright hends)).trans (hrest n ?_)
  rw [List.length_append] at hn
  omega

theorem comes_question (h : l.Reads d) {t t' : Token} {vs ws rest : List Token} {test yes no : Expr} {fin : Nat}
    (hkind : t.kind = .punct .question) (hyes : d.assignment vs yes) (hcolon : t'.kind = .punct .colon)
    (hno : d.assignment ws no) (hends : Ends 0 rest) :
    Comes (fun n => binaryTail l 0 n test) (t :: (vs ++ t' :: ws ++ rest)) fin
      (.conditional test yes no, ⟨rest, fin⟩) := by
  refine .of_cons fun n _ => ?_
  rw [run_binaryTail_question hkind]
  have hbranches : (branches l).run ⟨vs ++ t' :: ws ++ rest, fin⟩ = .ok ((yes, no), ⟨rest, fin⟩) :=
    (reads_branches h).complete ⟨vs, t', ws, rfl, hyes, hcolon, hno⟩ hends
  refine (run_bind_ok hbranches).trans ?_
  exact run_binaryTail_ends (hends.mono (Nat.zero_le _)) n _ fin

theorem complete_binary (h : l.Reads d) {least stratum : Nat} {us : List Token} {e : Expr} (he : Binary d stratum us e)
    (hle : least ≤ stratum) {rest : List Token} {fin : Nat} {r : Expr × Input} (hends : Ends (behind stratum) rest)
    (hrest : Comes (fun n => binaryTail l least n e) rest fin r) :
    (binary l least).run ⟨us ++ rest, fin⟩ = .ok r := by
  induction he generalizing rest with
  | unary hunary =>
      refine (run_bind_ok ((reads_unary h).complete hunary (hends.mono (by decide)))).trans ?_
      exact hrest rest.length (Nat.le_refl _)
  | @power us vs t left right hleft hop hright =>
      have hpow : Operator.ofPunct? .power = some (.binary .pow) := rfl
      have htail := comes_operator h hpow hop hle hright hends hrest
      have hbefore : Ends 10 (t :: (vs ++ rest)) := ends_cons hop (by rintro _ ⟨⟩; decide)
      rw [List.append_assoc, List.cons_append]
      refine (run_bind_ok ((reads_unary h).complete hleft hbefore)).trans ?_
      exact htail _ (Nat.le_refl _)
  | tighter _ ih =>
      refine ih (Nat.le_succ_of_le hle) (hends.mono ?_) hrest
      simp only [behind]
      omega
  | @operator stratum us vs t p build left right _ hop hkind hright ih =>
      obtain ⟨op, hpunct, rfl, hne, rfl⟩ := mem_operators_iff.mp hop
      obtain ⟨_, hpow, _⟩ | ⟨hhigh, hnext⟩ := rightPower_eq op
      · exact absurd hpow hne
      · rw [← hnext] at hright
        have hafter : Ends (op.rightPower + 1) rest := hends.mono (by simp only [behind]; omega)
        have hbefore : Ends (behind op.power) (t :: (vs ++ rest)) := by
          refine ends_cons hkind fun n hn => ?_
          rw [tightness_operator hpunct] at hn
          cases hn
          simp only [behind]
          omega
        rw [List.append_assoc, List.cons_append]
        exact ih hle hbefore (comes_operator h hpunct hkind hle hright hafter hrest)

theorem reads_binary (h : l.Reads d) {stratum : Nat} (hlow : 1 ≤ stratum) (hhigh : stratum ≤ 8) :
    Parser.Reads (binary l stratum) (Binary d stratum) (Ends (stratum + 1)) where
  sound hrun := by
    obtain ⟨stratum, rfl⟩ := Nat.exists_eq_succ_of_ne_zero (Nat.ne_zero_of_lt hlow)
    exact sound_binary h hhigh hrun
  complete hphrase hends := by
    refine complete_binary h hphrase (Nat.le_refl _) (hends.mono ?_) fun n _ => run_binaryTail_ends hends n _ _
    simp only [behind]
    omega

/-! ### Assignments -/

theorem chain_of_binary {stratum : Nat} {us : List Token} {target : Expr} (h : Binary d stratum us target)
    {assign : Expr → Expr} (htarget : assignTo? target = some assign) : Chain d us target := by
  induction h with
  | unary hunary =>
      cases hunary with
      | chain hchain => exact hchain
      | operator => cases htarget
  | power => cases htarget
  | tighter _ ih => exact ih htarget
  | operator _ hop =>
      obtain ⟨op, _, _, _, rfl⟩ := mem_operators_iff.mp hop
      cases op <;> cases htarget

/-- What can be assigned to is a chain. -/
theorem chain_of_target {us : List Token} {target : Expr} (h : Conditional d us target) {assign : Expr → Expr}
    (htarget : assignTo? target = some assign) : Chain d us target := by
  cases h with
  | binary hbinary => exact chain_of_binary hbinary htarget
  | conditional => cases htarget

theorem ends_zero_iff {ts : List Token} : Ends 0 ts ↔ Ends 1 ts ∧ ∀ t ∈ ts.head?, t.kind ≠ .punct .assign := by
  constructor
  · intro h
    exact ⟨h.mono (Nat.zero_le 1), fun t ht hkind => absurd (h t ht _ 0 hkind rfl) (Nat.lt_irrefl 0)⟩
  · rintro ⟨hends, hother⟩ t ht p n hkind hn
    have hlt : n < 1 := hends t ht p n hkind hn
    obtain rfl : n = 0 := by omega
    refine absurd hkind ?_
    cases p <;> simp [tightness, Operator.ofPunct?] at hn
    exact hother t ht

theorem run_assignmentTail_ends {rest : List Token} (hends : Ends 0 rest) (start : Nat) (x : Expr) (fin : Nat) :
    (assignmentTail l start x).run ⟨rest, fin⟩ = .ok (x, ⟨rest, fin⟩) := by
  obtain ⟨t, ts, rfl, hkind, _⟩ | ⟨_, heat⟩ := eat_cases .assign rest fin
  · exact absurd hkind ((ends_zero_iff.mp hends).2 t rfl)
  · rw [assignmentTail, run_bind_ok heat]
    rfl

theorem sound_assignment (h : l.Reads d) {ts : List Token} {fin : Nat} {x : Expr} {i : Input}
    (hrun : (assignment l).run ⟨ts, fin⟩ = .ok (x, i)) :
    ∃ used rest, ts = used ++ rest ∧ i = ⟨rest, fin⟩ ∧ Assignment d used x ∧ Ends 0 rest := by
  rw [run_assignment] at hrun
  obtain ⟨target, i', hbinary, htail⟩ := ok_of_run_bind hrun
  obtain ⟨us, ts, rfl, rfl, htarget, hends⟩ := sound_binary h (Nat.zero_le 8) hbinary
  obtain ⟨t, ts, rfl, hkind, heat⟩ | ⟨hother, heat⟩ := eat_cases .assign ts fin
  · rw [assignmentTail, run_bind_ok heat, if_pos rfl] at htail
    cases hassign : assignTo? target with
    | none =>
        rw [hassign] at htail
        cases htail
    | some assign =>
        rw [hassign] at htail
        obtain ⟨value, i', hvalue, hpure⟩ := ok_of_run_bind htail
        obtain ⟨vs, rest, rfl, rfl, hvalue, hends⟩ := h.assignment.sound hvalue
        cases hpure
        have hchain := chain_of_target htarget hassign
        exact ⟨us ++ t :: vs, rest, by simp, rfl, .assign hchain hassign hkind hvalue, hends⟩
  · rw [assignmentTail, run_bind_ok heat, if_neg Bool.false_ne_true] at htail
    cases htail
    exact ⟨us, ts, rfl, rfl, .conditional htarget, ends_zero_iff.mpr ⟨hends, hother⟩⟩

theorem complete_assignment (h : l.Reads d) {used : List Token} {x : Expr} (hphrase : Assignment d used x)
    {rest : List Token} (hends : Ends 0 rest) (fin : Nat) :
    (assignment l).run ⟨used ++ rest, fin⟩ = .ok (x, ⟨rest, fin⟩) := by
  rw [run_assignment]
  cases hphrase with
  | @conditional used x hconditional =>
      have hrun : (binary l 0).run ⟨used ++ rest, fin⟩ = .ok (x, ⟨rest, fin⟩) := by
        cases hconditional with
        | binary hbinary =>
            exact complete_binary h hbinary (Nat.zero_le 1) (hends.mono (Nat.zero_le _)) fun n _ =>
              run_binaryTail_ends (hends.mono (Nat.zero_le _)) n x fin
        | @conditional us vs ws t t' test yes no htest hquestion hyes hcolon hno =>
            have hbefore : Ends (behind 1) (t :: (vs ++ t' :: ws ++ rest)) :=
              ends_cons hquestion (by rintro _ ⟨⟩; decide)
            rw [List.append_assoc, List.cons_append]
            exact complete_binary h htest (Nat.zero_le 1) hbefore
              (comes_question h hquestion hyes hcolon hno hends)
      exact (run_bind_ok hrun).trans (run_assignmentTail_ends hends _ x fin)
  | @assign us vs t target value assign htarget hassign hkind hvalue =>
      have hbefore : Ends 1 (t :: (vs ++ rest)) := ends_cons hkind (by rintro _ ⟨⟩; decide)
      have hrun : (binary l 0).run ⟨us ++ t :: (vs ++ rest), fin⟩ = .ok (target, ⟨t :: (vs ++ rest), fin⟩) :=
        complete_binary h (htarget.binary (by decide)) (Nat.zero_le 1) (hbefore.mono (by decide)) fun n _ =>
          run_binaryTail_ends hbefore n target fin
      rw [List.append_assoc, List.cons_append, run_bind_ok hrun, assignmentTail,
        run_bind_ok (run_eat_self hkind fin), if_pos rfl, hassign]
      exact run_bind_ok (h.assignment.complete hvalue hends)

theorem reads_assignment (h : l.Reads d) : Parser.Reads (assignment l) (Assignment d) (Ends 0) where
  sound := sound_assignment h
  complete hphrase hends := complete_assignment h hphrase hends _

end

end ScriptRepl.Syntax.Parser
