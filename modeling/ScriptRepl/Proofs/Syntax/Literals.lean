import ScriptRepl.Proofs.Syntax.Sequence
import ScriptRepl.Proofs.Syntax.Tiling
import ScriptRepl.Proofs.Text.Size

/-! The texts of a program take no more bytes than its source: an escape is no shorter than what it stands for. -/
namespace ScriptRepl.Syntax

open Text (Cursor size)

/-- The text that a token stands for, up to the first hole of a template, takes no more than `n` bytes. -/
def TokenKind.TextWithin (n : Nat) : TokenKind → Prop
  | .text s => s.utf8ByteSize ≤ n
  | .template tpl => tpl.head.utf8ByteSize ≤ n
  | .number _ | .name _ | .keyword _ | .punct _ | .comment => True

theorem TokenKind.TextWithin.mono {kind : TokenKind} {m n : Nat} (h : kind.TextWithin m) (hle : m ≤ n) :
    kind.TextWithin n := by
  cases kind with
  | text s => exact Nat.le_trans h hle
  | template tpl => exact Nat.le_trans h hle
  | _ => trivial

/-! ### Tokens -/

namespace Lexer

variable {place after stop : Cursor} {kind : TokenKind} {c : Char}

/-- An escape takes no fewer bytes than the character that it stands for. -/
theorem size_escape_le (place : Cursor) :
    size (escape place).1.toList + size (escape place).2.rest ≤ size place.rest := by
  unfold escape
  split
  · exact Nat.le_of_eq (Nat.zero_add _)
  · rename_i c after hnext
    rw [Cursor.size_of_next? hnext]
    have hnone : ∀ k, size (none : Option Char).toList + size (after.skip k).rest ≤ c.utf8Size + size after.rest :=
      fun k => Nat.add_le_add (Nat.zero_le _) (Cursor.size_skip_le k after)
    split
    case h_8 =>
      split
      · rename_i d hhex
        have hlength := length_of_hexChar? hhex
        have hdigits : size (after.rest.take 4) + size (after.skip 4).rest = size after.rest := by
          rw [Cursor.rest_skip, ← Text.size_append, List.take_append_drop]
        have hfour := Text.length_le_size (after.rest.take 4)
        rw [List.length_take, Nat.min_eq_left hlength] at hfour
        have hchar : size (some d).toList ≤ 4 := d.utf8Size_le_four
        dsimp only
        omega
      · exact Nat.le_refl _
    case h_9 =>
      dsimp only
      split
      · exact hnone 1
      · exact hnone 0
    case h_10 =>
      split
      · exact hnone 0
      · exact Nat.le_refl _
    all_goals exact Nat.add_le_add_right (Nat.le_refl 1) _

theorem size_quoted_le {quote : Char} {cs : List Char} (h : quoted quote place = .ok (cs, stop)) :
    size cs ≤ size place.rest := by
  fun_induction quoted quote place generalizing cs stop with
  | case1 => cases h
  | case2 => cases h
  | case3 place after hn _ =>
      cases h
      exact Nat.zero_le _
  | case4 place after cs' stop' hq hn _ _ ih =>
      cases h
      have hrest := ih hq
      have hescape := size_escape_le after
      rw [Text.size_append, Cursor.size_of_next? hn]
      omega
  | case5 => cases h
  | case6 place c after hn _ _ _ cs' stop' hq ih =>
      cases h
      rw [size, Cursor.size_of_next? hn]
      exact Nat.add_le_add_left (ih hq) _
  | case7 => cases h

theorem size_pieces?_le {p : Pieces} (h : pieces? place = some (p, stop)) : size p.head ≤ size place.rest := by
  fun_induction pieces? place generalizing p stop with
  | case1 => cases h
  | case2 place after hn =>
      cases h
      exact Nat.zero_le _
  | case3 place after hn _ ih =>
      obtain ⟨⟨p', stop'⟩, hp, he⟩ := Option.map_eq_some_iff.1 h
      cases he
      have hrest := ih hp
      have hescape := size_escape_le after
      rw [Pieces.push, Text.size_append, Cursor.size_of_next? hn]
      omega
  | case4 => cases h
  | case5 place c after hn =>
      obtain ⟨⟨p', stop'⟩, hp, he⟩ := Option.map_eq_some_iff.1 h
      cases he
      exact Nat.zero_le _
  | case6 place c after hn _ _ _ ih =>
      obtain ⟨⟨p', stop'⟩, hp, he⟩ := Option.map_eq_some_iff.1 h
      cases he
      rw [Pieces.push, Text.size_append, Cursor.size_of_next? hn]
      exact Nat.add_le_add_left (ih hp) _

theorem textWithin_lexeme (h : lexeme c after = .ok (kind, stop)) : kind.TextWithin (size after.rest) := by
  unfold lexeme at h
  split at h
  · cases h
    trivial
  split at h
  · unfold blockComment at h
    dsimp only at h
    split at h <;> cases h
    trivial
  split at h
  · unfold textToken at h
    split at h
    · rename_i hquoted
      cases h
      rw [TokenKind.TextWithin, Text.utf8ByteSize_ofList]
      exact size_quoted_le hquoted
    · cases h
  split at h
  · unfold templateToken at h
    split at h
    · rename_i hpieces
      cases h
      rw [TokenKind.TextWithin, Pieces.template, Text.utf8ByteSize_ofList]
      exact size_pieces?_le hpieces
    · cases h
  split at h
  · unfold numberToken at h
    split at h
    · split at h <;> cases h
      trivial
    · cases h
  split at h
  · cases h
    unfold nameKind
    split <;> trivial
  · unfold punctToken at h
    split at h <;> cases h
    trivial

theorem textWithin_scan (place : Cursor) : ∀ t ∈ (scan place).tokens, t.kind.TextWithin (size place.rest) := by
  fun_induction scan place with
  | case1 => exact fun t ht => absurd ht List.not_mem_nil
  | case2 => exact fun t ht => absurd ht List.not_mem_nil
  | case3 place newline start c after hn kind stop hl rest ih =>
      have hstart : size start.rest ≤ size place.rest := (Cursor.reaches_skipWhile _ _).size_le
      have hafter : size after.rest ≤ size place.rest := by
        rw [Cursor.size_of_next? hn] at hstart
        omega
      have hstop : size stop.rest ≤ size place.rest := Nat.le_trans (reaches_lexeme hl).size_le hafter
      refine List.forall_mem_cons.mpr ⟨(textWithin_lexeme hl).mono hafter, fun t ht => (ih t ht).mono hstop⟩

end Lexer

/-- The text and the holes of a token take no more than `n` bytes. -/
structure Token.Within (n : Nat) (t : Token) : Prop where
  text : t.kind.TextWithin n
  holes : ∀ hole ∈ t.kind.holes, hole.source.utf8ByteSize ≤ n

theorem Token.Within.mono {t : Token} {m n : Nat} (h : t.Within m) (hle : m ≤ n) : t.Within n :=
  ⟨h.text.mono hle, fun hole hhole => Nat.le_trans (h.holes hole hhole) hle⟩

theorem within_lex (source : String) : ∀ t ∈ (lex source).tokens, t.Within source.utf8ByteSize := by
  intro t ht
  have hsize : size (Cursor.ofString source).rest = source.utf8ByteSize := Text.size_toList source
  refine ⟨hsize ▸ Lexer.textWithin_scan _ t ht, fun hole hhole => ?_⟩
  have hcovers := (Lexer.tiling_scan (Cursor.ofString source)).covers (Cursor.Reaches.refl _) t ht
  have hstop := hcovers.stop_le_size
  obtain ⟨-, hhole, -⟩ := hcovers.holes hole hhole
  rw [Text.size_toList] at hhole hstop
  omega

/-! ### Trees -/

mutual

/-- No text in the tree takes more than `n` bytes, nor does the text of a template up to its first hole. -/
def Expr.TextsWithin (n : Nat) : Expr → Prop
  | .text s => s.utf8ByteSize ≤ n
  | .template head parts => head.utf8ByteSize ≤ n ∧ PartsWithin n parts
  | .number _ | .literal _ | .name _ => True
  | .array items => ItemsWithin n items
  | .object fields => FieldsWithin n fields
  | .member object _ => object.TextsWithin n
  | .index object key => object.TextsWithin n ∧ key.TextsWithin n
  | .call callee args => callee.TextsWithin n ∧ ItemsWithin n args
  | .unary _ operand => operand.TextsWithin n
  | .binary _ left right => left.TextsWithin n ∧ right.TextsWithin n
  | .logical _ left right => left.TextsWithin n ∧ right.TextsWithin n
  | .conditional test yes no => test.TextsWithin n ∧ yes.TextsWithin n ∧ no.TextsWithin n
  | .assignName _ value => value.TextsWithin n
  | .assignMember object _ value => object.TextsWithin n ∧ value.TextsWithin n
  | .assignIndex object key value => object.TextsWithin n ∧ key.TextsWithin n ∧ value.TextsWithin n

def ItemsWithin (n : Nat) : List Expr → Prop
  | [] => True
  | e :: es => e.TextsWithin n ∧ ItemsWithin n es

def FieldsWithin (n : Nat) : List (String × Expr) → Prop
  | [] => True
  | (_, e) :: fields => e.TextsWithin n ∧ FieldsWithin n fields

def PartsWithin (n : Nat) : List (Expr × String) → Prop
  | [] => True
  | (e, _) :: parts => e.TextsWithin n ∧ PartsWithin n parts

end

def Stmt.TextsWithin (n : Nat) : Stmt → Prop
  | .expr e => e.TextsWithin n
  | .decl _ _ init => ∀ e ∈ init, e.TextsWithin n
  | .empty => True

namespace Grammar

/-- Phrases of short tokens are trees with short texts. -/
structure Nested.Short (d : Nested) (n : Nat) : Prop where
  assignment : ∀ {us e}, (∀ t ∈ us, t.Within n) → d.assignment us e → e.TextsWithin n
  operand : ∀ {stratum us e}, (∀ t ∈ us, t.Within n) → d.operand stratum us e → e.TextsWithin n
  unary : ∀ {us e}, (∀ t ∈ us, t.Within n) → d.unary us e → e.TextsWithin n
  items : ∀ {close us es}, (∀ t ∈ us, t.Within n) → d.items close us es → ItemsWithin n es
  fields : ∀ {us fields}, (∀ t ∈ us, t.Within n) → d.fields us fields → FieldsWithin n fields
  parts : ∀ {holes parts}, (∀ part ∈ holes, part.1.source.utf8ByteSize ≤ n) → d.parts holes parts →
    PartsWithin n parts

section

variable {d : Nested} {n : Nat} {us : List Token} {e : Expr}

theorem Primary.textsWithin (hd : d.Short n) (hus : ∀ t ∈ us, t.Within n) (h : Primary d us e) : e.TextsWithin n := by
  cases h with
  | number h => trivial
  | @text t s h =>
      have htext := (hus t List.mem_cons_self).text
      rwa [h] at htext
  | name h => trivial
  | literal h => trivial
  | @template t tpl parts h hparts =>
      obtain ⟨htext, hholes⟩ := hus t List.mem_cons_self
      rw [h] at htext hholes
      exact ⟨htext, hd.parts (fun part hpart => hholes part.1 (List.mem_map_of_mem hpart)) hparts⟩
  | parens hopen hinner hclose =>
      refine hd.assignment (fun t ht => hus t ?_) hinner
      exact List.mem_cons_of_mem _ (List.mem_append_left _ ht)
  | array hopen hitems => exact hd.items (fun t ht => hus t (List.mem_cons_of_mem _ ht)) hitems
  | object hopen hfields => exact hd.fields (fun t ht => hus t (List.mem_cons_of_mem _ ht)) hfields

theorem Chain.textsWithin (hd : d.Short n) (hus : ∀ t ∈ us, t.Within n) (h : Chain d us e) : e.TextsWithin n := by
  induction h with
  | primary h => exact h.textsWithin hd hus
  | member _ _ _ ih => exact ih (List.forall_mem_append.mp hus).1
  | index _ _ hkey _ ih =>
      obtain ⟨hobject, hrest⟩ := List.forall_mem_append.mp hus
      exact ⟨ih hobject, hd.assignment (List.forall_mem_append.mp (List.forall_mem_cons.mp hrest).2).1 hkey⟩
  | call _ _ hargs ih =>
      obtain ⟨hcallee, hrest⟩ := List.forall_mem_append.mp hus
      exact ⟨ih hcallee, hd.items (List.forall_mem_cons.mp hrest).2 hargs⟩

theorem Unary.textsWithin (hd : d.Short n) (hus : ∀ t ∈ us, t.Within n) (h : Unary d us e) : e.TextsWithin n := by
  cases h with
  | chain h => exact h.textsWithin hd hus
  | operator hop hoperand =>
      have hoperand := hd.unary (List.forall_mem_cons.mp hus).2 hoperand
      exact hoperand

theorem textsWithin_build (op : Parser.Operator) {left right : Expr} (hleft : left.TextsWithin n)
    (hright : right.TextsWithin n) : (op.build left right).TextsWithin n := by
  cases op <;> exact ⟨hleft, hright⟩

theorem Binary.textsWithin {stratum : Nat} (hd : d.Short n) (hus : ∀ t ∈ us, t.Within n) (h : Binary d stratum us e) :
    e.TextsWithin n := by
  induction h with
  | unary h => exact h.textsWithin hd hus
  | power hleft _ hright =>
      obtain ⟨hbefore, hrest⟩ := List.forall_mem_append.mp hus
      exact ⟨hleft.textsWithin hd hbefore, hd.operand (List.forall_mem_cons.mp hrest).2 hright⟩
  | tighter _ ih => exact ih hus
  | operator _ hop _ hright ih =>
      obtain ⟨hbefore, hrest⟩ := List.forall_mem_append.mp hus
      obtain ⟨op, _, _, _, rfl⟩ := mem_operators_iff.mp hop
      exact textsWithin_build op (ih hbefore) (hd.operand (List.forall_mem_cons.mp hrest).2 hright)

theorem Conditional.textsWithin (hd : d.Short n) (hus : ∀ t ∈ us, t.Within n) (h : Conditional d us e) :
    e.TextsWithin n := by
  cases h with
  | binary h => exact h.textsWithin hd hus
  | conditional htest _ hyes _ hno =>
      obtain ⟨hbefore, hrest⟩ := List.forall_mem_append.mp hus
      obtain ⟨hyes', hrest⟩ := List.forall_mem_append.mp (List.forall_mem_cons.mp hrest).2
      exact ⟨htest.textsWithin hd hbefore, hd.assignment hyes' hyes,
        hd.assignment (List.forall_mem_cons.mp hrest).2 hno⟩

theorem Assignment.textsWithin (hd : d.Short n) (hus : ∀ t ∈ us, t.Within n) (h : Assignment d us e) :
    e.TextsWithin n := by
  cases h with
  | conditional h => exact h.textsWithin hd hus
  | @assign _ _ _ target value _ htarget hbuild _ hvalue =>
      obtain ⟨hbefore, hrest⟩ := List.forall_mem_append.mp hus
      have htarget := htarget.textsWithin hd hbefore
      have hvalue := hd.assignment (List.forall_mem_cons.mp hrest).2 hvalue
      cases target <;> cases hbuild
      · exact hvalue
      · exact ⟨htarget, hvalue⟩
      · exact ⟨htarget.1, htarget.2, hvalue⟩

theorem Field.textsWithin {field : String × Expr} (hd : d.Short n) (hus : ∀ t ∈ us, t.Within n) (h : Field d us field) :
    field.2.TextsWithin n := by
  cases h with
  | name h => trivial
  | keyed _ _ hvalue => exact hvalue.textsWithin hd (List.forall_mem_cons.mp (List.forall_mem_cons.mp hus).2).2

theorem itemsWithin {close : Punct} {es : List Expr} (hd : d.Short n) (hus : ∀ t ∈ us, t.Within n)
    (h : Separated close (Assignment d) us es) : ItemsWithin n es := by
  induction h with
  | close _ => trivial
  | last hitem _ => exact ⟨hitem.textsWithin hd (List.forall_mem_append.mp hus).1, trivial⟩
  | more hitem _ _ ih =>
      obtain ⟨hbefore, hrest⟩ := List.forall_mem_append.mp hus
      exact ⟨hitem.textsWithin hd hbefore, ih (List.forall_mem_cons.mp hrest).2⟩

theorem fieldsWithin {fields : List (String × Expr)} (hd : d.Short n) (hus : ∀ t ∈ us, t.Within n)
    (h : Separated .closeBrace (Field d) us fields) : FieldsWithin n fields := by
  induction h with
  | close _ => trivial
  | last hfield _ => exact ⟨hfield.textsWithin hd (List.forall_mem_append.mp hus).1, trivial⟩
  | more hfield _ _ ih =>
      obtain ⟨hbefore, hrest⟩ := List.forall_mem_append.mp hus
      exact ⟨hfield.textsWithin hd hbefore, ih (List.forall_mem_cons.mp hrest).2⟩

theorem Parts.textsWithin {holes : List (Hole × String)} {parts : List (Expr × String)} (hd : d.Short n)
    (hholes : ∀ part ∈ holes, part.1.source.utf8ByteSize ≤ n) (h : Parts d holes parts) : PartsWithin n parts := by
  induction h with
  | nil => trivial
  | @cons hole _ _ _ _ hexpr _ ih =>
      obtain ⟨hhole, hholes⟩ := List.forall_mem_cons.mp hholes
      obtain ⟨ts, mark, hlex, hexpr⟩ := hexpr
      refine ⟨hexpr.textsWithin hd fun t ht => ?_, ih hholes⟩
      have hwithin := within_lex hole.source t
      rw [hlex] at hwithin
      exact (hwithin (List.mem_filter.mp ht).1).mono hhole

end

theorem Nested.Short.above {d : Nested} {n : Nat} (hd : d.Short n) : d.above.Short n where
  assignment := Assignment.textsWithin hd
  operand := Binary.textsWithin hd
  unary := Unary.textsWithin hd
  items := itemsWithin hd
  fields := fieldsWithin hd
  parts := Parts.textsWithin hd

theorem Nested.short_within (room n : Nat) : (Nested.none.within room).Short n := by
  induction room with
  | zero => exact ⟨nofun, nofun, nofun, nofun, nofun, nofun⟩
  | succ room ih => exact ih.above

theorem Body.textsWithin {us : List Token} {s : Stmt} {n : Nat} (hus : ∀ t ∈ us, t.Within n) (h : Body us s) :
    s.TextsWithin n := by
  cases h with
  | expr h => exact Assignment.textsWithin (Nested.short_within _ n) hus h
  | bare => nofun
  | valued _ _ _ hvalue =>
      rintro _ ⟨⟩
      have hvalue' := (List.forall_mem_cons.mp (List.forall_mem_cons.mp (List.forall_mem_cons.mp hus).2).2).2
      exact Assignment.textsWithin (Nested.short_within _ n) hvalue' hvalue

theorem Program.textsWithin {us : List Token} {p : Syntax.Program} {n : Nat} (hus : ∀ t ∈ us, t.Within n)
    (h : Program us p) : ∀ s ∈ p, s.TextsWithin n := by
  induction h with
  | nil => nofun
  | empty _ _ ih => exact List.forall_mem_cons.mpr ⟨trivial, ih (List.forall_mem_cons.mp hus).2⟩
  | closed hbody _ _ ih =>
      obtain ⟨hbefore, hrest⟩ := List.forall_mem_append.mp hus
      exact List.forall_mem_cons.mpr ⟨hbody.textsWithin hbefore, ih (List.forall_mem_cons.mp hrest).2⟩
  | ended hbody _ _ _ ih =>
      obtain ⟨hbefore, hrest⟩ := List.forall_mem_append.mp hus
      exact List.forall_mem_cons.mpr ⟨hbody.textsWithin hbefore, ih hrest⟩

end Grammar

/-- The texts of an accepted program take no more bytes than its source. -/
theorem textsWithin_of_parseProgram {source : String} {p : Program} {n : Nat} (h : parseProgram source = .ok p)
    (hsource : source.utf8ByteSize ≤ n) : ∀ s ∈ p, s.TextsWithin n := by
  obtain ⟨ts, mark, hlex, hphrase⟩ := parseProgram_derives.mp h
  refine hphrase.textsWithin fun t ht => ?_
  have hwithin := within_lex source t
  rw [hlex] at hwithin
  exact (hwithin (List.mem_filter.mp ht).1).mono hsource

end ScriptRepl.Syntax
