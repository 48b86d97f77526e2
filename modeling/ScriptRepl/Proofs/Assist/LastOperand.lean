import ScriptRepl.Assist.Completion
import ScriptRepl.Proofs.Syntax.Joined
import ScriptRepl.Proofs.Syntax.Matched

/-! The operand that a program ends with: the chain of members, indices and calls that its last token belongs to, and
what stands before that. -/
namespace ScriptRepl

namespace Syntax

/-- The value before the last dot of a tree that ends with a member. -/
def Expr.lastObject? : Expr → Option Expr
  | .member value _ => some value
  | .unary _ operand => operand.lastObject?
  | .binary _ _ right => right.lastObject?
  | .logical _ _ right => right.lastObject?
  | .conditional _ _ no => no.lastObject?
  | .assignName _ value => value.lastObject?
  | .assignMember _ _ value => value.lastObject?
  | .assignIndex _ _ value => value.lastObject?
  | .number _ | .text _ | .template _ _ | .literal _ | .name _ | .array _ | .object _ | .index _ _ | .call _ _ => none

def Stmt.lastObject? : Stmt → Option Expr
  | .expr e => e.lastObject?
  | .decl _ _ (some e) => e.lastObject?
  | .decl _ _ none | .empty => none

def Program.lastObject? (p : Program) : Option Expr :=
  p.getLast?.bind Stmt.lastObject?

end Syntax

namespace Assist

open Syntax (Token TokenKind Punct Keyword Expr Stmt Parser.Ends)
open Syntax.Grammar (Nested Primary Unary Binary Conditional Assignment Expression Body BodyEnds EndsLine Program
  MatchedUpTo)

variable {us vs pre earlier before : List Token} {t t' dot : Token} {e : Expr}

/-- A value ends there that `endsValue` does not see: an object, or a member whose name is a keyword. -/
inductive Unseen : List Token → Prop
  | brace {before : List Token} {t : Token} (h : t.kind = .punct .closeBrace) : Unseen (before ++ [t])
  | keyword {before : List Token} {dot t : Token} {k : Keyword} (hdot : dot.kind = .punct .dot)
      (h : t.kind = .keyword k) : Unseen (before ++ [dot, t])

/-- A value ends there. -/
inductive ValueEnds : List Token → Prop
  | seen {before : List Token} {t : Token} (h : endsValue t = true) : ValueEnds (before ++ [t])
  | unseen {ts : List Token} (h : Unseen ts) : ValueEnds ts

/-- The last token is no dot. -/
def NoDot (ts : List Token) : Prop :=
  ∀ t ∈ ts.getLast?, t.kind ≠ .punct .dot

/-- What an operand comes behind: an operator or another punctuator that ends nothing, or `typeof`. -/
inductive OperandNext : List Token → Prop
  | punct {before : List Token} {t : Token} {p : Punct} (h : t.kind = .punct p)
      (hother : p ∉ [.dot, .closeParen, .closeBracket, .closeBrace]) : OperandNext (before ++ [t])
  | typeof {before : List Token} {t : Token} (h : t.kind = .keyword .typeof) (hdot : NoDot before) :
    OperandNext (before ++ [t])

theorem noDot_concat (h : t.kind ≠ .punct .dot) : NoDot (before ++ [t]) := by
  intro u hu
  rw [List.getLast?_concat] at hu
  cases hu
  exact h

theorem Unseen.noDot (h : Unseen us) : NoDot us := by
  cases h with
  | brace h => exact noDot_concat fun hkind => by rw [hkind] at h; cases h
  | @keyword before dot t k hdot h =>
      rw [show before ++ [dot, t] = (before ++ [dot]) ++ [t] by simp]
      exact noDot_concat fun hkind => by rw [hkind] at h; cases h

theorem Unseen.behind (h : Unseen us) (pre : List Token) : Unseen (pre ++ us) := by
  cases h with
  | brace h =>
      rw [← List.append_assoc]
      exact .brace h
  | keyword hdot h =>
      rw [← List.append_assoc]
      exact .keyword hdot h

theorem ValueEnds.noDot (h : ValueEnds us) : NoDot us := by
  cases h with
  | seen h =>
      refine noDot_concat fun hkind => ?_
      rw [endsValue, hkind] at h
      cases h
  | unseen h => exact h.noDot

theorem ValueEnds.behind (h : ValueEnds us) (pre : List Token) : ValueEnds (pre ++ us) := by
  cases h with
  | seen h =>
      rw [← List.append_assoc]
      exact .seen h
  | unseen h => exact .unseen (h.behind pre)

theorem Unseen.exists_last (h : Unseen us) : ∃ before t, us = before ++ [t] := by
  cases h with
  | brace h => exact ⟨_, _, rfl⟩
  | @keyword before dot t k hdot h => exact ⟨before ++ [dot], t, by simp⟩

theorem ValueEnds.ne_nil (h : ValueEnds us) : us ≠ [] := by
  rcases h with _ | _ | _ <;> simp

theorem OperandNext.noDot (h : OperandNext pre) : NoDot pre := by
  cases h with
  | punct h hother =>
      refine noDot_concat fun hkind => ?_
      rw [h] at hkind
      cases hkind
      exact absurd (by decide) hother
  | typeof h =>
      refine noDot_concat fun hkind => ?_
      rw [h] at hkind
      cases hkind

theorem Unseen.last (h : Unseen (before ++ [t])) :
    t.kind = .punct .closeBrace ∨ ∃ k, t.kind = .keyword k ∧ ¬NoDot before := by
  generalize hsplit : before ++ [t] = us at h
  cases h with
  | brace h =>
      obtain ⟨-, hlast⟩ := List.append_inj' hsplit rfl
      exact .inl (List.singleton_inj.mp hlast ▸ h)
  | @keyword first dot t' k hdot h =>
      rw [show first ++ [dot, t'] = (first ++ [dot]) ++ [t'] by simp] at hsplit
      obtain ⟨rfl, hlast⟩ := List.append_inj' hsplit rfl
      refine .inr ⟨k, List.singleton_inj.mp hlast ▸ h, fun hnone => hnone dot ?_ hdot⟩
      rw [List.getLast?_concat]
      rfl

theorem OperandNext.last (h : OperandNext (before ++ [t])) :
    (∃ p, t.kind = .punct p ∧ p ∉ [.dot, .closeParen, .closeBracket, .closeBrace]) ∨
      (t.kind = .keyword .typeof ∧ NoDot before) := by
  generalize hsplit : before ++ [t] = us at h
  cases h with
  | punct h hother =>
      obtain ⟨-, hlast⟩ := List.append_inj' hsplit rfl
      exact .inl ⟨_, List.singleton_inj.mp hlast ▸ h, hother⟩
  | typeof h hdot =>
      obtain ⟨rfl, hlast⟩ := List.append_inj' hsplit rfl
      exact .inr ⟨List.singleton_inj.mp hlast ▸ h, hdot⟩

/-! ### Expressions -/

theorem valueEnds_singleton (h : endsValue t = true) : ValueEnds [t] :=
  show ValueEnds ([] ++ [t]) from .seen h

theorem valueEnds_closed {close : Punct} (h : MatchedUpTo close us)
    (hclose : close = .closeParen ∨ close = .closeBracket ∨ close = .closeBrace) : ValueEnds us := by
  obtain ⟨inner, t, rfl, hkind, -⟩ := h
  rcases hclose with rfl | rfl | rfl
  · exact .seen (by simp [endsValue, hkind])
  · exact .seen (by simp [endsValue, hkind])
  · exact .unseen (.brace hkind)

theorem valueEnds_cons (t : Token) (h : ValueEnds us) : ValueEnds (t :: us) :=
  h.behind [t]

theorem valueEnds_primary {d : Nested} (hd : d.Matched) (h : Primary d us e) : ValueEnds us := by
  cases h with
  | number h => exact valueEnds_singleton (by simp [endsValue, h])
  | text h => exact valueEnds_singleton (by simp [endsValue, h])
  | name h => exact valueEnds_singleton (by simp [endsValue, h])
  | literal h => exact valueEnds_singleton (by simp [endsValue, h])
  | template h => exact valueEnds_singleton (by simp [endsValue, h])
  | @parens t t' us e hopen hinner hclose =>
      exact valueEnds_cons t (.seen (by simp [endsValue, hclose]))
  | array hopen hitems => exact valueEnds_cons _ (valueEnds_closed (hd.items hitems) (.inr (.inl rfl)))
  | object hopen hfields => exact valueEnds_cons _ (valueEnds_closed (hd.fields hfields) (.inr (.inr rfl)))

theorem valueEnds_chain {d : Nested} (hd : d.Matched) (h : Syntax.Grammar.Chain d us e) : ValueEnds us := by
  cases h with
  | primary h => exact valueEnds_primary hd h
  | @member us dot t' e key hobject hdot hkey =>
      cases hkind : t'.kind with
      | name s =>
          rw [show us ++ [dot, t'] = (us ++ [dot]) ++ [t'] by simp]
          exact .seen (by simp [endsValue, hkind])
      | keyword k => exact .unseen (.keyword hdot hkind)
      | _ =>
          rw [hkind] at hkey
          cases hkey
  | @index us vs t t' e key hobject hopen hkey hclose =>
      rw [show us ++ t :: (vs ++ [t']) = (us ++ t :: vs) ++ [t'] by simp]
      exact .seen (by simp [endsValue, hclose])
  | call hcallee hopen hargs =>
      exact (valueEnds_cons _ (valueEnds_closed (hd.items hargs) (.inl rfl))).behind _

/-- The tokens of a tree, with others before them, end with a chain. If its last part is a member, so is that of the
tree. -/
structure LastChain (room : Nat) (earlier us : List Token) (e : Expr) (pre vs : List Token) (room' : Nat) (o : Expr) :
    Prop where
  split : us = pre ++ vs
  le : room' ≤ room
  chain : Syntax.Grammar.Chain (Nested.none.within room') vs o
  before : pre = [] ∨ OperandNext (earlier ++ pre)
  last : ∀ value key, o = .member value key → e.lastObject? = some value

/-- The tokens of a tree end with a chain. -/
def EndsInChain (room : Nat) (earlier us : List Token) (e : Expr) : Prop :=
  ∃ pre vs room' o, LastChain room earlier us e pre vs room' o

theorem EndsInChain.valueEnds {room : Nat} (h : EndsInChain room earlier us e) : ValueEnds us := by
  obtain ⟨pre, vs, room', o, h⟩ := h
  rw [h.split]
  exact (valueEnds_chain (Nested.matched_within room') h.chain).behind pre

/-- What stands behind an operator decides how the whole ends. -/
theorem EndsInChain.behind {room room' : Nat} {e' : Expr} (hnext : OperandNext (earlier ++ us ++ [t]))
    (h : EndsInChain room (earlier ++ us ++ [t]) vs e') (hle : room ≤ room') (hlast : e.lastObject? = e'.lastObject?) :
    EndsInChain room' earlier (us ++ t :: vs) e := by
  obtain ⟨pre, ws, room'', o, h⟩ := h
  refine ⟨us ++ t :: pre, ws, room'', o, ?_, Nat.le_trans h.le hle, h.chain, .inr ?_, hlast ▸ h.last⟩
  · rw [h.split, List.append_assoc]
    rfl
  · rcases h.before with rfl | hbefore
    · rwa [List.append_assoc] at hnext
    · simpa using hbefore

section

variable {room : Nat}

/-- What the operands of a level end with. -/
structure EndInChains (room : Nat) : Prop where
  assignment : ∀ {earlier us e}, NoDot earlier → (Nested.none.within room).assignment us e →
    EndsInChain room earlier us e
  operand : ∀ {earlier stratum us e}, NoDot earlier → (Nested.none.within room).operand stratum us e →
    EndsInChain room earlier us e
  unary : ∀ {earlier us e}, NoDot earlier → (Nested.none.within room).unary us e → EndsInChain room earlier us e

theorem operandNext_unary {op : Syntax.UnaryOp} (h : Syntax.Parser.unaryOf? t.kind = some op) (hdot : NoDot earlier) :
    OperandNext (earlier ++ [t]) := by
  unfold Syntax.Parser.unaryOf? at h
  split at h
  case h_4 hkind => exact .typeof hkind hdot
  case h_5 => cases h
  all_goals
    rename_i hkind
    exact .punct hkind (by decide)

theorem operandNext_operator {stratum : Nat} {p : Punct} {build : Expr → Expr → Expr}
    (h : (p, build) ∈ Syntax.Grammar.operators stratum) (hkind : t.kind = .punct p) : OperandNext (before ++ [t]) := by
  refine .punct hkind ?_
  obtain ⟨op, hop, -⟩ := Syntax.Grammar.mem_operators_iff.mp h
  cases p <;> first | decide | cases hop

theorem lastObject?_build {stratum : Nat} {p : Punct} {build : Expr → Expr → Expr}
    (h : (p, build) ∈ Syntax.Grammar.operators stratum) (left right : Expr) :
    (build left right).lastObject? = right.lastObject? := by
  obtain ⟨op, -, -, -, rfl⟩ := Syntax.Grammar.mem_operators_iff.mp h
  cases op <;> rfl

theorem lastObject?_assign {target : Expr} {build : Expr → Expr} (h : Syntax.Parser.assignTo? target = some build)
    (value : Expr) : (build value).lastObject? = value.lastObject? := by
  cases target <;> cases h <;> rfl

variable (hd : EndInChains room) (hdot : NoDot earlier)

theorem endsInChain_chain (h : Syntax.Grammar.Chain (Nested.none.within room) us e) :
    EndsInChain room earlier us e :=
  ⟨[], us, room, e, rfl, Nat.le_refl _, h, .inl rfl, fun _ _ he => he ▸ rfl⟩

include hd hdot

theorem endsInChain_unary (h : Unary (Nested.none.within room) us e) : EndsInChain room earlier us e := by
  cases h with
  | chain h => exact endsInChain_chain h
  | @operator t us op e hop hoperand =>
      have hnext : OperandNext (earlier ++ [] ++ [t]) := by
        rw [List.append_nil]
        exact operandNext_unary hop hdot
      exact .behind hnext (hd.unary hnext.noDot hoperand) (Nat.le_refl _) rfl

theorem endsInChain_binary {stratum : Nat} (h : Binary (Nested.none.within room) stratum us e) :
    EndsInChain room earlier us e := by
  induction h with
  | unary h => exact endsInChain_unary hd hdot h
  | @power us vs t left right hleft hop hright =>
      have hnext : OperandNext (earlier ++ us ++ [t]) := .punct hop (by decide)
      exact .behind hnext (hd.operand hnext.noDot hright) (Nat.le_refl _) rfl
  | tighter _ ih => exact ih
  | @operator stratum us vs t p build left right hleft hop hkind hright =>
      have hnext : OperandNext (earlier ++ us ++ [t]) := operandNext_operator hop hkind
      exact .behind hnext (hd.operand hnext.noDot hright) (Nat.le_refl _) (lastObject?_build hop _ _)

theorem endsInChain_conditional (h : Conditional (Nested.none.within room) us e) : EndsInChain room earlier us e := by
  cases h with
  | binary h => exact endsInChain_binary hd hdot h
  | @conditional us vs ws t t' _ _ _ htest hquestion hyes hcolon hno =>
      rw [show us ++ t :: (vs ++ t' :: ws) = (us ++ t :: vs) ++ t' :: ws by simp]
      have hnext : OperandNext (earlier ++ (us ++ t :: vs) ++ [t']) := .punct hcolon (by decide)
      exact .behind hnext (hd.assignment hnext.noDot hno) (Nat.le_refl _) rfl

theorem endsInChain_assignment (h : Assignment (Nested.none.within room) us e) : EndsInChain room earlier us e := by
  cases h with
  | conditional h => exact endsInChain_conditional hd hdot h
  | @assign us vs t target value build htarget hbuild hassign hvalue =>
      have hnext : OperandNext (earlier ++ us ++ [t]) := .punct hassign (by decide)
      exact .behind hnext (hd.assignment hnext.noDot hvalue) (Nat.le_refl _) (lastObject?_assign hbuild _)

end

theorem EndsInChain.mono {room room' : Nat} (h : EndsInChain room earlier us e) (hle : room ≤ room') :
    EndsInChain room' earlier us e := by
  obtain ⟨pre, vs, room'', o, h⟩ := h
  exact ⟨pre, vs, room'', o, h.split, Nat.le_trans h.le hle, h.chain, h.before, h.last⟩

theorem endInChains (room : Nat) : EndInChains room := by
  induction room with
  | zero => exact ⟨nofun, nofun, nofun⟩
  | succ room ih =>
      exact {
        assignment := fun hdot h => (endsInChain_assignment ih hdot h).mono (Nat.le_succ _)
        operand := fun hdot h => (endsInChain_binary ih hdot h).mono (Nat.le_succ _)
        unary := fun hdot h => (endsInChain_unary ih hdot h).mono (Nat.le_succ _) }

theorem endsInChain_expression (hdot : NoDot earlier) (h : Expression us e) :
    EndsInChain Syntax.Parser.maxNesting earlier us e :=
  endsInChain_assignment (endInChains _) hdot h

/-! ### Programs -/

/-- What comes before an operand, in the order of the source: nothing, or what it comes behind, or an earlier
statement that a line end closes. An operand in brackets would go on with such a statement, if that is not a declaration
without a value. -/
inductive Before : (pre vs : List Token) → Prop
  | first {vs : List Token} : Before [] vs
  | operand {pre vs : List Token} (h : OperandNext pre) : Before pre vs
  | line {pre vs : List Token} (h : ValueEnds pre)
      (hhead : ∀ t ∈ vs.head?, t.kind ≠ .punct .openParen ∧ t.kind ≠ .punct .openBracket) : Before pre vs
  | declared {before vs : List Token} {key name : Token} {kind : Syntax.DeclKind} {s : String}
      (hkey : key.kind = .keyword (.decl kind)) (hname : name.kind = .name s) (hdot : NoDot before) :
      Before (before ++ [key, name]) vs

theorem Before.noDot (h : Before pre vs) : NoDot pre := by
  cases h with
  | first => exact nofun
  | operand h => exact h.noDot
  | line h => exact h.noDot
  | @declared before vs key name kind s hkey hname hdot =>
      rw [show before ++ [key, name] = (before ++ [key]) ++ [name] by simp]
      exact noDot_concat fun hkind => by rw [hname] at hkind; cases hkind

theorem Before.congr_head (h : Before pre vs) (hhead : us.head? = vs.head?) : Before pre us := by
  cases h with
  | first => exact .first
  | operand h => exact .operand h
  | line h hother => exact .line h (hhead ▸ hother)
  | declared hkey hname hdot => exact .declared hkey hname hdot

theorem before_of_ends (hvalue : ValueEnds pre) (hends : Syntax.Parser.Ends 0 vs) : Before pre vs := by
  refine .line hvalue fun t ht => ⟨fun hkind => ?_, fun hkind => ?_⟩
  · exact absurd (hends t ht .openParen 10 hkind rfl) (Nat.not_lt_zero _)
  · exact absurd (hends t ht .openBracket 10 hkind rfl) (Nat.not_lt_zero _)

theorem before_statement {s : Stmt} (hdot : NoDot earlier) (hbody : Body us s) (hends : BodyEnds s vs) :
    Before (earlier ++ us) vs := by
  cases hbody with
  | expr h => exact before_of_ends ((endsInChain_expression hdot h).valueEnds.behind earlier) hends
  | bare hkey hname => exact .declared hkey hname hdot
  | @valued t t' t'' us kind s e hkey hname hassign hvalue =>
      have hnext : OperandNext ((earlier ++ [t, t']) ++ [t'']) := .punct hassign (by decide)
      have hends' : ValueEnds us := (endsInChain_expression hnext.noDot hvalue).valueEnds
      have hall := hends'.behind (earlier ++ [t, t', t''])
      rw [List.append_assoc] at hall
      exact before_of_ends hall hends

/-- The tokens of a program end with a chain; if its last part is a member, it is that of the program. -/
structure ProgramEnds (us : List Token) (p : Syntax.Program) (pre vs : List Token) (room : Nat) (o : Expr) : Prop where
  split : us = pre ++ vs
  le : room ≤ Syntax.Parser.maxNesting
  chain : Syntax.Grammar.Chain (Nested.none.within room) vs o
  before : Before pre vs
  last : ∀ value key, o = .member value key → p.lastObject? = some value

theorem lastObject?_cons {s : Stmt} {q : Syntax.Program} (h : q ≠ []) :
    Syntax.Program.lastObject? (s :: q) = q.lastObject? := by
  cases q with
  | nil => exact absurd rfl h
  | cons => rfl

theorem ProgramEnds.of_expression {q : Syntax.Program} (hbefore : Before earlier us) (h : Expression us e)
    (hlast : q.lastObject? = e.lastObject?) : ∃ pre vs room o, ProgramEnds (earlier ++ us) q pre vs room o := by
  obtain ⟨pre, vs, room, o, hsplit, hle, hchain, hopen, hmember⟩ := endsInChain_expression hbefore.noDot h
  refine ⟨earlier ++ pre, vs, room, o, ?_, hle, hchain, ?_, hlast ▸ hmember⟩
  · rw [hsplit, List.append_assoc]
  · rcases hopen with rfl | hopen
    · rw [List.append_nil]
      exact hbefore.congr_head (hsplit ▸ rfl)
    · exact .operand hopen

theorem program_ne_nil {q : Syntax.Program} (h : Program us q) (hus : us ≠ []) : q ≠ [] := by
  cases h with
  | nil => exact absurd rfl hus
  | _ => exact List.cons_ne_nil _ _

theorem eq_of_concat {ts : List Token} (h : us ++ [t'] = ts ++ [dot, t]) : t' = t := by
  have hconcat : us ++ [t'] = (ts ++ [dot]) ++ [t] := by
    rw [h, List.append_assoc]
    rfl
  exact List.singleton_inj.mp (List.append_inj' hconcat rfl).2

/-- A program that ends with a member. -/
theorem programEnds {p : Syntax.Program} {ts : List Token} (h : Program us p) (hbefore : Before earlier us)
    (hne : us ≠ []) (hsplit : earlier ++ us = ts ++ [dot, t]) (hdot : dot.kind = .punct .dot)
    (hname : t.kind ≠ .punct .semicolon) :
    ∃ pre vs room o, ProgramEnds (earlier ++ us) p pre vs room o := by
  have hmore : ∀ {first : List Token} {s : Stmt} {vs : List Token} {q : Syntax.Program}, Program vs q → vs ≠ [] →
      (∃ pre ws room o, ProgramEnds (first ++ vs) q pre ws room o) →
      ∃ pre ws room o, ProgramEnds (first ++ vs) (s :: q) pre ws room o := by
    rintro first s vs q hq hvs ⟨pre, ws, room, o, hends⟩
    refine ⟨pre, ws, room, o, hends.split, hends.le, hends.chain, hends.before, ?_⟩
    rw [lastObject?_cons (program_ne_nil hq hvs)]
    exact hends.last
  induction h generalizing earlier with
  | nil => exact absurd rfl hne
  | @empty t' us p hclose hrest ih =>
      rw [List.append_cons] at hsplit ⊢
      have hus : us ≠ [] := by
        rintro rfl
        rw [List.append_nil] at hsplit
        exact hname (eq_of_concat hsplit ▸ hclose)
      exact hmore hrest hus (ih (.operand (.punct hclose (by decide))) hus hsplit)
  | @closed us vs t' s p hbody hclose hrest ih =>
      rw [← List.append_assoc, List.append_cons] at hsplit ⊢
      have hvs : vs ≠ [] := by
        rintro rfl
        rw [List.append_nil] at hsplit
        exact hname (eq_of_concat hsplit ▸ hclose)
      exact hmore hrest hvs (ih (.operand (.punct hclose (by decide))) hvs hsplit)
  | @ended us vs s p hbody hends hline hrest ih =>
      by_cases hvs : vs = []
      · obtain rfl : p = [] := hrest.eq_nil hvs
        subst hvs
        rw [List.append_nil] at hsplit hbefore ⊢
        cases hbody with
        | expr h => exact ProgramEnds.of_expression hbefore h rfl
        | @bare key name kind s hkey =>
            obtain ⟨-, hlast⟩ := List.append_inj' hsplit rfl
            obtain rfl : key = dot := (List.cons.inj hlast).1
            rw [hkey] at hdot
            cases hdot
        | @valued key name assign us kind s e hkey hname hassign hvalue =>
            have hnext : OperandNext (earlier ++ [key, name] ++ [assign]) := .punct hassign (by decide)
            rw [List.append_assoc] at hnext
            rw [show earlier ++ key :: name :: assign :: us = earlier ++ [key, name, assign] ++ us by simp]
            exact ProgramEnds.of_expression (.operand hnext) hvalue rfl
      · rw [← List.append_assoc] at hsplit ⊢
        exact hmore hrest hvs (ih (before_statement hbefore.noDot hbody hends) hvs hsplit)

/-- Nothing but a member ends with a name behind a dot. -/
theorem member_of_chain {d : Nested} (hd : d.Matched) (h : Syntax.Grammar.Chain d (us ++ [dot, t]) e) {key : String}
    (hname : Syntax.Parser.memberName? t.kind = some key) :
    ∃ value, Syntax.Grammar.Chain d us value ∧ e = .member value key := by
  have hopen : ∀ {ts : List Token} {t' : Token} {p : Punct}, us ++ [dot, t] = ts ++ [t'] → t'.kind ≠ .punct p := by
    rintro ts t' p hsplit hkind
    obtain rfl := eq_of_concat hsplit.symm
    rw [hkind] at hname
    cases hname
  have hopens : ∀ {first inner : List Token} {close : Punct}, us ++ [dot, t] = first ++ inner →
      ¬MatchedUpTo close inner := by
    rintro first inner close hsplit ⟨inner, t', rfl, hkind, -⟩
    rw [← List.append_assoc] at hsplit
    exact hopen hsplit hkind
  generalize hvs : us ++ [dot, t] = vs at h hopen hopens
  cases h with
  | @member us' dot' t' value key' hobject hdot hkey =>
      obtain ⟨rfl, hlast⟩ := List.append_inj' hvs rfl
      cases hlast
      rw [hname] at hkey
      cases hkey
      exact ⟨value, hobject, rfl⟩
  | @index us' vs' t' t'' value key' _ _ _ hclose =>
      rw [show us' ++ t' :: (vs' ++ [t'']) = us' ++ t' :: vs' ++ [t''] by simp] at hopen
      exact absurd hclose (hopen rfl)
  | @call us' vs' t' callee args _ _ hargs =>
      rw [List.append_cons] at hopens
      exact absurd (hd.items hargs) (hopens rfl)
  | primary h =>
      have hlength := congrArg List.length hvs
      cases h with
      | @parens t' t'' us' e _ _ hclose => exact absurd hclose (@hopen (t' :: us') _ _ rfl)
      | @array t' us' items _ hitems => exact absurd (hd.items hitems) (@hopens [t'] _ _ rfl)
      | @object t' us' fields _ hfields => exact absurd (hd.fields hfields) (@hopens [t'] _ _ rfl)
      | _ => simp at hlength

/-- The value before the last dot of a program: its tokens, and what stands before them. -/
theorem exists_lastObject {p : Syntax.Program} {ts : List Token} {key : String} (h : Program (ts ++ [dot, t]) p)
    (hdot : dot.kind = .punct .dot) (hname : Syntax.Parser.memberName? t.kind = some key) :
    ∃ pre us room value, ts = pre ++ us ∧ room ≤ Syntax.Parser.maxNesting ∧
      Syntax.Grammar.Chain (Nested.none.within room) us value ∧ Before pre us ∧ p.lastObject? = some value := by
  have hsemicolon : t.kind ≠ .punct .semicolon := by
    intro hkind
    rw [hkind] at hname
    cases hname
  obtain ⟨pre, vs, room, o, hends⟩ := programEnds h (.first : Before [] _) (by simp) rfl hdot hsemicolon
  have hd := Nested.matched_within room
  have hsplit : ts ++ [dot] ++ [t] = pre ++ vs := by
    rw [← hends.split]
    simp
  obtain rfl | ⟨vs, y, rfl⟩ := vs.eq_nil_or_concat'
  · exact absurd rfl (valueEnds_chain hd hends.chain).ne_nil
  rw [← List.append_assoc] at hsplit
  obtain ⟨hfront, hlast⟩ := List.append_inj' hsplit rfl
  obtain rfl : t = y := List.singleton_inj.mp hlast
  obtain rfl | ⟨us, x, rfl⟩ := vs.eq_nil_or_concat'
  · rw [List.append_nil] at hfront
    exact absurd hdot (hends.before.noDot dot (by rw [← hfront, List.getLast?_concat]; rfl))
  rw [← List.append_assoc] at hfront
  obtain ⟨hpre, hlast⟩ := List.append_inj' hfront rfl
  obtain rfl : dot = x := List.singleton_inj.mp hlast
  have hchain := hends.chain
  rw [List.append_assoc, List.singleton_append] at hchain
  obtain ⟨value, hvalue, ho⟩ := member_of_chain hd hchain hname
  refine ⟨pre, us, room, value, hpre, hends.le, hvalue, hends.before.congr_head ?_, hends.last _ _ ho⟩
  obtain ⟨u, us, rfl⟩ := List.exists_cons_of_ne_nil (valueEnds_chain hd hvalue).ne_nil
  rfl

end Assist

end ScriptRepl
