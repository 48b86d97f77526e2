import Mathlib.Data.List.Forall2
import ScriptRepl.Proofs.Syntax.Grammar
import ScriptRepl.Proofs.Syntax.LastWord
import ScriptRepl.Realm.Inspection

/-! What characters are cut into, whatever their offset: the marks, names, quoted texts and numbers that values are
shown with, and the blanks between them. -/
namespace ScriptRepl.Syntax

open Text (Cursor isBlank isNameStart isNameChar isName)

/-- From every offset on the characters are cut into tokens of these kinds, comments aside. -/
def Lexes (cs : List Char) (kinds : List TokenKind) : Prop :=
  ∀ n, ∃ ts mark, Lexer.scan ⟨n, cs⟩ = ⟨ts, .ok mark⟩ ∧ (significant ts).map Token.kind = kinds

/-- At every offset the token that begins with this character has the kind and ends before `rest`. -/
def Makes (c : Char) (cs : List Char) (kind : TokenKind) (rest : List Char) : Prop :=
  ∀ n, ∃ m, Lexer.lexeme c ⟨n, cs⟩ = .ok (kind, ⟨m, rest⟩)

variable {c : Char} {cs rest : List Char} {kind : TokenKind} {kinds : List TokenKind}

theorem lexes_nil : Lexes [] [] :=
  fun _ => ⟨_, _, Lexer.scan_of_end rfl, rfl⟩

theorem lexes_token (hblank : isBlank c = false) (hkind : kind.isComment = false) (htoken : Makes c cs kind rest)
    (hrest : Lexes rest kinds) : Lexes (c :: cs) (kind :: kinds) := by
  intro n
  obtain ⟨m, hlexeme⟩ := htoken (n + c.utf8Size)
  obtain ⟨ts, mark, hscan, hkinds⟩ := hrest m
  have hskip : Cursor.skipWhile isBlank ⟨n, c :: cs⟩ = ⟨n, c :: cs⟩ := by
    simp [Cursor.skipWhile, Cursor.skipWhile.go, hblank]
  have hnext : (Cursor.skipWhile isBlank ⟨n, c :: cs⟩).next? = some (c, ⟨n + c.utf8Size, cs⟩) := by
    rw [hskip]
    rfl
  refine ⟨_, _, by rw [Lexer.scan_of_lexeme hnext hlexeme, hscan], ?_⟩
  rw [significant, List.filter_cons_of_pos (by simp [hkind]), List.map_cons]
  exact congrArg (kind :: ·) hkinds

theorem lexes_blank (hblank : isBlank c = true) (h : Lexes cs kinds) : Lexes (c :: cs) kinds := by
  intro n
  obtain ⟨ts, mark, hscan, hkinds⟩ := h (n + c.utf8Size)
  have hskip : Cursor.skipWhile isBlank ⟨n, c :: cs⟩ = Cursor.skipWhile isBlank ⟨n + c.utf8Size, cs⟩ := by
    simp [Cursor.skipWhile, Cursor.skipWhile.go, hblank]
  rw [Lexer.scan.eq_def] at hscan
  dsimp only at hscan
  split at hscan
  · rename_i hend
    rw [← hskip] at hend
    cases hscan
    exact ⟨_, _, Lexer.scan_of_end hend, hkinds⟩
  · rename_i d after hnext
    rw [← hskip] at hnext
    split at hscan
    · cases hscan
    · rename_i kind stop hlexeme
      injection hscan with htokens hresult
      refine ⟨_, mark, by rw [Lexer.scan_of_lexeme hnext hlexeme, hresult], ?_⟩
      subst htokens
      cases hcomment : kind.isComment <;> simpa [significant, hcomment] using hkinds

theorem lexes_blanks {blanks : List Char} (hblanks : ∀ c ∈ blanks, isBlank c = true) (h : Lexes cs kinds) :
    Lexes (blanks ++ cs) kinds := by
  induction blanks with
  | nil => exact h
  | cons c blanks ih =>
      exact lexes_blank (hblanks c List.mem_cons_self) (ih fun d hd => hblanks d (List.mem_cons_of_mem _ hd))

/-! ### Tokens -/

/-- The marks that are one character, whatever follows it. -/
def marks : List (Char × Punct) :=
  [('[', .openBracket), (']', .closeBracket), ('\x7b', .openBrace), ('\x7d', .closeBrace), (',', .comma),
   (':', .colon), ('-', .minus)]

theorem makes_mark {p : Punct} (h : (c, p) ∈ marks) (rest : List Char) : Makes c rest (.punct p) rest := by
  simp only [marks, List.mem_cons, List.not_mem_nil, or_false, Prod.mk.injEq] at h
  rcases h with ⟨rfl, rfl⟩ | ⟨rfl, rfl⟩ | ⟨rfl, rfl⟩ | ⟨rfl, rfl⟩ | ⟨rfl, rfl⟩ | ⟨rfl, rfl⟩ | ⟨rfl, rfl⟩ <;>
    exact fun n => ⟨n, rfl⟩

theorem lexes_mark {p : Punct} (h : (c, p) ∈ marks) (hrest : Lexes rest kinds) :
    Lexes (c :: rest) (.punct p :: kinds) := by
  refine lexes_token ?_ rfl (makes_mark h rest) hrest
  simp only [marks, List.mem_cons, List.not_mem_nil, or_false, Prod.mk.injEq] at h
  rcases h with ⟨rfl, -⟩ | ⟨rfl, -⟩ | ⟨rfl, -⟩ | ⟨rfl, -⟩ | ⟨rfl, -⟩ | ⟨rfl, -⟩ | ⟨rfl, -⟩ <;> decide

theorem eq_mk_of_rest {place : Cursor} (h : place.rest = rest) : place = ⟨place.offset, rest⟩ := by
  cases h
  rfl

/-- No name goes on with what follows. -/
theorem makes_name (hstart : isNameStart c = true) (hcs : ∀ d ∈ cs, isNameChar d = true)
    (hrest : ∀ d ∈ rest.head?, isNameChar d = false) :
    Makes c (cs ++ rest) (Lexer.nameKind (String.ofList (c :: cs))) rest := by
  have htake : (cs ++ rest).takeWhile isNameChar = cs := by
    rw [Lexer.takeWhile_extended fun _ => hrest, List.takeWhile_eq_self_iff.mpr hcs]
  have hdrop : (cs ++ rest).dropWhile isNameChar = rest := by
    have happend := List.takeWhile_append_dropWhile (p := isNameChar) (l := cs ++ rest)
    rw [htake] at happend
    exact List.append_cancel_left happend
  intro n
  have hstop := eq_mk_of_rest ((Cursor.rest_skipWhile isNameChar ⟨n, cs ++ rest⟩).trans hdrop)
  rw [Lexer.lexeme_of_nameStart hstart, htake, hstop]
  exact ⟨_, rfl⟩

theorem lexes_name {name : String} (hname : isName name = true) (hrest : ∀ d ∈ rest.head?, isNameChar d = false)
    (h : Lexes rest kinds) : Lexes (name.toList ++ rest) (Lexer.nameKind name :: kinds) := by
  have hstart := Text.isNameStart_of_isName hname
  have hchars := Text.isNameChar_of_isName hname
  rw [← @String.ofList_toList name]
  cases hcs : name.toList with
  | nil =>
      rw [isName, hcs] at hname
      cases hname
  | cons c cs =>
      rw [hcs] at hstart hchars
      have hblank := Text.not_isBlank_of_isNameChar (hchars c List.mem_cons_self)
      have hkind : (Lexer.nameKind (String.ofList (c :: cs))).isComment = false := by
        unfold Lexer.nameKind
        split <;> rfl
      rw [String.toList_ofList]
      exact lexes_token hblank hkind
        (makes_name (hstart c rfl) (fun d hd => hchars d (List.mem_cons_of_mem _ hd)) hrest) h

/-! ### Texts in quotes -/

open Inspection (quotedChar hexPadded)

theorem hexPadded_of_lt {n : Nat} (hn : n < 0x20) :
    hexPadded n = ['0', '0', Number.digitChar (n / 16), Number.digitChar (n % 16)] := by
  have hquotient : n / 16 < 2 := by omega
  have hlast : Number.radixDigits 16 (n / 16) = [Number.digitChar (n / 16)] := by
    rw [Number.radixDigits, if_neg (by omega)]
  unfold hexPadded
  rw [Number.radixDigits]
  split
  · rw [hlast]
    rfl
  · have hzero : n / 16 = 0 := by omega
    have hrest : n % 16 = n := by omega
    rw [hzero, hrest]
    rfl

theorem hexChar?_hexPadded {n : Nat} (hn : n < 0x20) : Lexer.hexChar? (hexPadded n) = some (Char.ofNat n) := by
  have hall : ∀ n < 0x20,
      Lexer.hexChar? ['0', '0', Number.digitChar (n / 16), Number.digitChar (n % 16)] = some (Char.ofNat n) := by
    decide
  rw [hexPadded_of_lt hn, hall n hn]

/-- At every offset the characters are the rest of a text in quotes, and those behind it. -/
def Quotes (cs : List Char) (text : List Char) (rest : List Char) : Prop :=
  ∀ n, ∃ m, Lexer.quoted '\'' ⟨n, cs⟩ = .ok (text, ⟨m, rest⟩)

theorem quotes_nil (rest : List Char) : Quotes ('\'' :: rest) [] rest := by
  intro n
  rw [Lexer.quoted.eq_def]
  exact ⟨_, rfl⟩

theorem quotes_plain {text : List Char} (hline : c ≠ '\n' ∧ c ≠ '\r') (hquote : c ≠ '\'') (hescape : c ≠ '\\')
    (h : Quotes cs text rest) : Quotes (c :: cs) (c :: text) rest := by
  intro n
  obtain ⟨m, hm⟩ := h (n + c.utf8Size)
  refine ⟨m, ?_⟩
  rw [Lexer.quoted.eq_def]
  simp [Cursor.next?, hline, hquote, hescape, hm]

theorem quotes_escape {es text : List Char} (hescape : ∀ n, ∃ m, Lexer.escape ⟨n, es ++ cs⟩ = (some c, ⟨m, cs⟩))
    (h : Quotes cs text rest) : Quotes ('\\' :: es ++ cs) (c :: text) rest := by
  intro n
  obtain ⟨k, hk⟩ := hescape (n + '\\'.utf8Size)
  obtain ⟨m, hm⟩ := h k
  refine ⟨m, ?_⟩
  rw [Lexer.quoted.eq_def]
  simp [Cursor.next?, hk, hm]

theorem escape_hexPadded {n : Nat} (hn : n < 0x20) (cs : List Char) (k : Nat) :
    ∃ m, Lexer.escape ⟨k, 'u' :: hexPadded n ++ cs⟩ = (some (Char.ofNat n), ⟨m, cs⟩) := by
  have hchar := hexChar?_hexPadded hn
  rw [hexPadded_of_lt hn] at hchar ⊢
  have hread : Lexer.escape ⟨k, 'u' :: ['0', '0', Number.digitChar (n / 16), Number.digitChar (n % 16)] ++ cs⟩ =
      (some (Char.ofNat n), Cursor.skip 4 ⟨k + 'u'.utf8Size, ['0', '0', Number.digitChar (n / 16),
        Number.digitChar (n % 16)] ++ cs⟩) := by
    simp only [Lexer.escape, Cursor.next?, List.cons_append, List.nil_append, List.take_succ_cons, List.take_zero,
      hchar]
  exact ⟨_, hread⟩

theorem quotes_quotedChar {text : List Char} (h : Quotes cs text rest) :
    Quotes (quotedChar c ++ cs) (c :: text) rest := by
  unfold quotedChar
  split
  case h_8 hquote hescape hnewline _ hreturn _ _ =>
    split
    · rename_i hcontrol
      refine quotes_escape (fun k => ?_) h
      have hread := escape_hexPadded hcontrol cs k
      rwa [Char.ofNat_toNat] at hread
    · exact quotes_plain ⟨hnewline, hreturn⟩ hquote hescape h
  all_goals exact quotes_escape (fun n => ⟨_, rfl⟩) h

theorem quotes_flatMap (text rest : List Char) : Quotes (text.flatMap quotedChar ++ '\'' :: rest) text rest := by
  induction text with
  | nil => exact quotes_nil rest
  | cons c text ih =>
      rw [List.flatMap_cons, List.append_assoc]
      exact quotes_quotedChar ih

/-- A text is read back from its quotation, whatever follows. -/
theorem lexes_quote (s : String) (h : Lexes rest kinds) :
    Lexes ((Inspection.quote s).toList ++ rest) (.text s :: kinds) := by
  have htoken : Makes '\'' (s.toList.flatMap quotedChar ++ '\'' :: rest) (.text s) rest := by
    intro n
    obtain ⟨m, hm⟩ := quotes_flatMap s.toList rest n
    refine ⟨m, ?_⟩
    have hlexeme : ∀ after, Lexer.lexeme '\'' after = Lexer.textToken '\'' after := fun _ => rfl
    rw [hlexeme, Lexer.textToken, hm]
    dsimp only
    rw [String.ofList_toList]
  have hquote : (Inspection.quote s).toList ++ rest = '\'' :: (s.toList.flatMap quotedChar ++ '\'' :: rest) := by
    simp [Inspection.quote]
  rw [hquote]
  exact lexes_token (by decide) rfl htoken h

/-! ### Numbers -/

/-- Whether a number begins. -/
def beginsNumber (c : Char) (cs : List Char) : Bool :=
  Number.isDigit c || (c == '.' && cs.head?.any Number.isDigit)

theorem lexeme_number {x : Float} {after stop : Cursor} (h : Lexer.lexeme c after = .ok (.number x, stop)) :
    beginsNumber c after.rest = true ∧ Lexer.numberToken c after = .ok (.number x, stop) := by
  cases Lexer.yields_of_lexeme h with
  | number hfirst h => exact ⟨hfirst, h⟩

theorem lexeme_of_beginsNumber {after : Cursor} (hdigit : beginsNumber c after.rest = true) :
    Lexer.lexeme c after = Lexer.numberToken c after := by
  have hne : ∀ d ∈ ['/', '\'', '"', '\x60'], c ≠ d := by
    rintro d hd rfl
    simp only [List.mem_cons, List.not_mem_nil, or_false] at hd
    rcases hd with rfl | rfl | rfl | rfl <;> cases hdigit
  have hslash := hne '/' (by decide)
  have hquote := hne '\'' (by decide)
  have hdouble := hne '"' (by decide)
  have hback := hne '\x60' (by decide)
  unfold Lexer.lexeme
  rw [if_neg (fun h => hslash h.1), if_neg (fun h => hslash h.1), if_neg (not_or.mpr ⟨hquote, hdouble⟩), if_neg hback]
  exact if_pos hdigit

/-- A number is the same number at every offset. -/
theorem makes_number {x : Float} {k : Nat} {stop : Cursor} (h : Lexer.lexeme c ⟨k, cs⟩ = .ok (.number x, stop)) :
    Makes c cs (.number x) stop.rest := by
  obtain ⟨hdigit, htoken⟩ := lexeme_number h
  intro n
  have hlexeme : Lexer.lexeme c ⟨n, cs⟩ = Lexer.numberToken c ⟨n, cs⟩ := lexeme_of_beginsNumber hdigit
  rw [hlexeme]
  unfold Lexer.numberToken at htoken ⊢
  dsimp only at htoken ⊢
  split at htoken
  · rename_i length hlength
    split at htoken
    · rename_i y hy
      cases htoken
      rw [Cursor.rest_skip, eq_mk_of_rest (Cursor.rest_skip (length - 1) ⟨n, cs⟩)]
      exact ⟨_, rfl⟩
    · cases htoken
  · cases htoken

/-- The text is one token of the kind. -/
def IsToken (text : String) (kind : TokenKind) : Prop :=
  ∃ t mark, lex text = ⟨[t], .ok mark⟩ ∧ t.kind = kind

instance (text : String) (kind : TokenKind) : Decidable (IsToken text kind) :=
  decidable_of_iff ((match lex text with
    | ⟨[t], .ok _⟩ => decide (t.kind = kind)
    | _ => false) = true) <| by
    constructor
    · intro h
      split at h
      · rename_i t mark hlex
        exact ⟨t, mark, hlex, of_decide_eq_true h⟩
      · cases h
    · rintro ⟨t, mark, hlex, hkind⟩
      rw [hlex]
      exact decide_eq_true hkind

/-- The one token of a text, and what surrounds it. -/
theorem lexeme_of_isToken {text : String} (h : IsToken text kind) :
    ∃ blanks c after stop, text.toList = blanks ++ c :: after.rest ∧ (∀ d ∈ blanks, isBlank d = true) ∧
      isBlank c = false ∧ Lexer.lexeme c after = .ok (kind, stop) ∧ ∀ d ∈ stop.rest, isBlank d = true := by
  obtain ⟨t, mark, hscan, hkind⟩ := h
  have hsplit := List.takeWhile_append_dropWhile (p := isBlank) (l := text.toList)
  have hskip := Cursor.rest_skipWhile isBlank (Cursor.ofString text)
  have hhead := List.head?_dropWhile_not isBlank text.toList
  unfold lex at hscan
  rw [Lexer.scan.eq_def] at hscan
  dsimp only at hscan
  split at hscan
  · cases hscan
  · rename_i c after hnext
    split at hscan
    · cases hscan
    · rename_i kind' stop hlexeme
      injection hscan with htokens hresult
      injection htokens with ht hnone
      subst ht
      cases hkind
      have hblank := Lexer.isBlank_of_scan_nil (show Lexer.scan stop = ⟨[], .ok mark⟩ by rw [← hnone, ← hresult])
      have hdrop : text.toList.dropWhile isBlank = c :: after.rest := by
        rw [← show (Cursor.ofString text).rest = text.toList from rfl, ← hskip]
        generalize Cursor.skipWhile isBlank (Cursor.ofString text) = place at hnext ⊢
        obtain ⟨n, _ | ⟨d, ds⟩⟩ := place
        · cases hnext
        · cases hnext
          rfl
      rw [hdrop] at hsplit hhead
      exact ⟨_, c, after, stop, hsplit.symm, fun d hd => List.mem_takeWhile_imp hd, hhead, hlexeme, hblank⟩

theorem lexes_number {text : String} {x : Float} (htext : IsToken text (.number x)) (hends : Lexer.EndsNumber rest)
    (h : Lexes rest kinds) : Lexes (text.toList ++ rest) (.number x :: kinds) := by
  obtain ⟨blanks, c, after, stop, hsplit, hblanks, hblank, hlexeme, hstop⟩ := lexeme_of_isToken htext
  have hextended : Lexer.lexeme c ⟨after.offset, after.rest ++ rest⟩ = .ok (.number x, stop.extended rest) :=
    Lexer.lexeme_extended hlexeme fun _ => hends
  rw [hsplit, List.append_assoc]
  exact lexes_blanks hblanks (lexes_token hblank rfl (makes_number hextended) (lexes_blanks hstop h))

end ScriptRepl.Syntax
