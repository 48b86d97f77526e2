import ScriptRepl.Proofs.Syntax.Extended
import ScriptRepl.Proofs.Text.Size

/-! The tokens of a source tile it: blanks and tokens follow each other from its start to its end, or to the place
where no token can be read. Spans are places that the lexer goes through, so they can be cut out of the source. -/
namespace ScriptRepl

namespace Text

/-- From one place to a later one over the characters between them. -/
structure Cursor.Passes (a : Cursor) (passed : List Char) (b : Cursor) : Prop where
  rest : a.rest = passed ++ b.rest
  offset : b.offset = a.offset + size passed

/-- The characters from one byte offset to another; both offsets lie on character boundaries. -/
def IsSlice (cs : List Char) (start stop : Nat) (slice : List Char) : Prop :=
  ∃ before after, cs = before ++ (slice ++ after) ∧ start = size before ∧ stop = size before + size slice

theorem splitNear_size (cs ds : List Char) : splitNear (size cs) (cs ++ ds) = (cs, ds) := by
  induction cs with
  | nil =>
      cases ds with
      | nil => rfl
      | cons d ds =>
          have hchar := d.utf8Size_pos
          rw [size, List.nil_append, splitNear, if_neg (by omega)]
  | cons c cs ih =>
      rw [size, List.cons_append, splitNear, if_pos (Nat.le_add_right ..), Nat.add_sub_cancel_left, ih]

theorem IsSlice.splitNear_eq {cs slice : List Char} {start stop : Nat} (h : IsSlice cs start stop slice) :
    (splitNear (stop - start) (splitNear start cs).2).1 = slice := by
  obtain ⟨before, after, rfl, rfl, rfl⟩ := h
  rw [splitNear_size, Nat.add_sub_cancel_left, splitNear_size]

/-- The text from the start of one slice to the end of another. -/
theorem IsSlice.between {cs first last : List Char} {start stop start' stop' : Nat} (h : IsSlice cs start stop first)
    (h' : IsSlice cs start' stop' last) (hle : start ≤ stop') : ∃ slice, IsSlice cs start stop' slice := by
  obtain ⟨before, after, hcs, rfl, rfl⟩ := h
  obtain ⟨before', after', hcs', rfl, rfl⟩ := h'
  rw [← List.append_assoc] at hcs'
  rcases List.prefix_or_prefix_of_prefix (hcs ▸ List.prefix_append before _) (hcs' ▸ List.prefix_append _ after') with
    ⟨slice, hslice⟩ | ⟨rest, hrest⟩
  · refine ⟨slice, before, after', ?_, rfl, ?_⟩
    · rw [hcs', ← hslice, List.append_assoc]
    · rw [← size_append, ← size_append, hslice]
  · refine ⟨[], before, first ++ after, by rw [hcs, List.nil_append], rfl, ?_⟩
    rw [← hrest, size_append, size_append] at hle
    rw [← hrest, size_append, size_append, size]
    omega

namespace Cursor

variable {a b c : Cursor} {passed passed' : List Char}

theorem Passes.refl (a : Cursor) : a.Passes [] a :=
  ⟨rfl, rfl⟩

theorem Passes.trans (h : a.Passes passed b) (h' : b.Passes passed' c) : a.Passes (passed ++ passed') c where
  rest := by rw [h.rest, h'.rest, List.append_assoc]
  offset := by rw [h'.offset, h.offset, size_append, Nat.add_assoc]

theorem Passes.reaches (h : a.Passes passed b) : a.Reaches b :=
  ⟨passed, h.rest, h.offset⟩

theorem Reaches.passes (h : a.Reaches b) : ∃ passed, a.Passes passed b := by
  obtain ⟨passed, hrest, hoffset⟩ := h
  exact ⟨passed, hrest, hoffset⟩

theorem passes_of_next? {d : Char} (h : a.next? = some (d, b)) : a.Passes [d] b := by
  obtain ⟨n, _ | ⟨e, cs⟩⟩ := a
  · cases h
  · cases h
    exact ⟨rfl, rfl⟩

theorem passes_skipWhile (p : Char → Bool) (a : Cursor) : a.Passes (a.rest.takeWhile p) (a.skipWhile p) := by
  obtain ⟨n, cs⟩ := a
  unfold skipWhile
  dsimp only
  induction cs generalizing n with
  | nil => exact .refl _
  | cons d cs ih =>
      rw [skipWhile.go, List.takeWhile_cons]
      split
      · exact Passes.trans (passes_of_next? rfl) (ih _)
      · exact .refl _

theorem passes_skip {n : Nat} {a : Cursor} (h : n ≤ a.rest.length) : a.Passes (a.rest.take n) (a.skip n) := by
  induction n generalizing a with
  | zero => exact .refl a
  | succ n ih =>
      obtain ⟨offset, _ | ⟨d, cs⟩⟩ := a
      · cases h
      · exact Passes.trans (passes_of_next? rfl) (ih (Nat.le_of_succ_le_succ h))

theorem reaches_skip_succ (n : Nat) (a : Cursor) : (a.skip n).Reaches (a.skip (n + 1)) := by
  induction n generalizing a with
  | zero => exact reaches_skip 1 a
  | succ n ih =>
      obtain ⟨offset, _ | ⟨d, cs⟩⟩ := a
      · exact .refl _
      · exact ih ⟨offset + d.utf8Size, cs⟩

theorem Reaches.offset_mono (h : a.Reaches b) : a.offset ≤ b.offset := by
  obtain ⟨passed, -, hoffset⟩ := h
  omega

/-- A place in a source has as many bytes before it as its offset says. -/
theorem Reaches.offset_add_size {source : String} (h : (ofString source).Reaches a) :
    a.offset + size a.rest = size source.toList := by
  obtain ⟨before, hrest, hoffset⟩ := h
  have hsource : source.toList = before ++ a.rest := hrest
  rw [hoffset, hsource, size_append, ofString, Nat.zero_add]

theorem Passes.isSlice {source : String} (h : (ofString source).Reaches a) (hpassed : a.Passes passed b) :
    IsSlice source.toList a.offset b.offset passed := by
  obtain ⟨before, hrest, hoffset⟩ := h
  have hstart : a.offset = size before := by rw [hoffset, ofString, Nat.zero_add]
  refine ⟨before, b.rest, ?_, hstart, ?_⟩
  · rw [← hpassed.rest]
    exact hrest
  · rw [hpassed.offset, hstart]

end Cursor

end Text

namespace Syntax

open Text (Cursor IsSlice isBlank isLineEnd size)

/-- The texts around the holes. -/
def Template.texts (t : Template) : List String :=
  t.head :: t.parts.map Prod.snd

def Template.holes (t : Template) : List Hole :=
  t.parts.map Prod.fst

/-- The holes of a token, if it is a template. -/
def TokenKind.holes : TokenKind → List Hole
  | .template t => t.holes
  | _ => []

namespace Lexer

/-- The source of a hole stands between two places. -/
def HoleBetween (place stop : Cursor) (hole : Hole) : Prop :=
  ∃ a b : Cursor, place.Reaches a ∧ a.offset = hole.offset ∧ a.Passes hole.source.toList b ∧ b.Reaches stop

theorem HoleBetween.extend {place place' stop : Cursor} {hole : Hole} (h : HoleBetween place stop hole)
    (hplace : place'.Reaches place) : HoleBetween place' stop hole := by
  obtain ⟨a, b, ha, hoffset, hpassed, hb⟩ := h
  exact ⟨a, b, hplace.trans ha, hoffset, hpassed, hb⟩

theorem holes_pieces? {place stop : Cursor} {p : Pieces} (h : pieces? place = some (p, stop)) :
    ∀ part ∈ p.parts, HoleBetween place stop part.1 := by
  fun_induction pieces? place generalizing p stop with
  | case1 => cases h
  | case2 =>
      cases h
      exact fun part hpart => absurd hpart List.not_mem_nil
  | case3 place after hn _ ih =>
      obtain ⟨⟨p', stop'⟩, hp, heq⟩ := Option.map_eq_some_iff.mp h
      cases heq
      intro part hpart
      exact (ih hp part hpart).extend ((Cursor.reaches_of_next? hn).trans (reaches_escape _))
  | case4 => cases h
  | case5 place c after hn =>
      rename_i inner n hlength hole ih
      obtain ⟨⟨p', stop'⟩, hp, heq⟩ := Option.map_eq_some_iff.mp h
      cases heq
      have hinner : place.Reaches inner := (Cursor.reaches_of_next? hn).trans (Cursor.reaches_skip ..)
      have hlt := (holeLength?_bounds hlength).2
      have hsource : inner.Passes (inner.rest.take n) (inner.skip n) := Cursor.passes_skip (by omega)
      have hbrace : (inner.skip n).Reaches (inner.skip (n + 1)) := Cursor.reaches_skip_succ n inner
      intro part hpart
      rcases List.mem_cons.mp hpart with rfl | hpart
      · refine ⟨inner, inner.skip n, hinner, rfl, ?_, hbrace.trans (reaches_pieces? hp)⟩
        rw [String.toList_ofList]
        exact hsource
      · exact (ih hp part hpart).extend (hinner.trans (Cursor.reaches_skip ..))
  | case6 place c after hn _ _ _ ih =>
      obtain ⟨⟨p', stop'⟩, hp, heq⟩ := Option.map_eq_some_iff.mp h
      cases heq
      intro part hpart
      exact (ih hp part hpart).extend (Cursor.reaches_of_next? hn)

theorem holes_lexeme {c : Char} {after stop : Cursor} {kind : TokenKind} (h : lexeme c after = .ok (kind, stop)) :
    ∀ hole ∈ kind.holes, HoleBetween after stop hole := by
  cases yields_of_lexeme h with
  | template _ hpieces =>
      intro hole hhole
      simp only [TokenKind.holes, Template.holes, Pieces.template, List.map_map] at hhole
      obtain ⟨part, hpart, rfl⟩ := List.mem_map.mp hhole
      exact holes_pieces? hpieces part hpart
  | _ => exact fun hole hhole => absurd hhole List.not_mem_nil

/-- What is cut up from a place on: blanks and a token in turn, and at last blanks up to the end or up to where no
token can be read. -/
inductive Tiling : Cursor → Lexed → Prop where
  | finish {place stop : Cursor} {gap : List Char} (hgap : place.Passes gap stop) (hblank : ∀ c ∈ gap, isBlank c = true)
      (hend : stop.rest = []) : Tiling place ⟨[], .ok ⟨stop.offset, gap.any isLineEnd⟩⟩
  | stuck {place stop : Cursor} {gap : List Char} {cause : LexCause} (hgap : place.Passes gap stop)
      (hblank : ∀ c ∈ gap, isBlank c = true) (hmore : stop.rest ≠ []) : Tiling place ⟨[], .error ⟨cause, stop.offset⟩⟩
  | token {place start stop : Cursor} {gap word : List Char} {kind : TokenKind} {rest : Lexed}
      (hgap : place.Passes gap start) (hblank : ∀ c ∈ gap, isBlank c = true) (hword : start.Passes word stop)
      (hne : word ≠ []) (hholes : ∀ hole ∈ kind.holes, HoleBetween start stop hole) (hrest : Tiling stop rest) :
      Tiling place ⟨⟨kind, start.offset, stop.offset, gap.any isLineEnd⟩ :: rest.tokens, rest.result⟩

theorem tiling_scan (place : Cursor) : Tiling place (scan place) := by
  have hblank : ∀ place : Cursor, ∀ c ∈ place.rest.takeWhile isBlank, isBlank c = true :=
    fun _ _ hc => List.mem_takeWhile_imp hc
  fun_induction scan place with
  | case1 place newline start hn =>
      exact .finish (Cursor.passes_skipWhile isBlank place) (hblank place) (Cursor.next?_eq_none_iff.mp hn)
  | case2 place start c after hn cause hl =>
      refine .stuck (Cursor.passes_skipWhile isBlank place) (hblank place) ?_
      intro hrest
      rw [Cursor.next?_eq_none_iff.mpr hrest] at hn
      cases hn
  | case3 place newline start c after hn kind stop hl rest ih =>
      obtain ⟨word, hword⟩ := (reaches_lexeme hl).passes
      refine .token (Cursor.passes_skipWhile isBlank place) (hblank place) ((Cursor.passes_of_next? hn).trans hword)
        (List.cons_ne_nil c word) ?_ ih
      intro hole hhole
      exact (holes_lexeme hl hole hhole).extend (Cursor.reaches_of_next? hn)

end Lexer

/-! ### Spans as byte offsets -/

/-- A token takes at least one character of the source. A template has one text more than holes, and each hole tells
where in the token its source stands. -/
structure Token.Covers (source : String) (t : Token) : Prop where
  start_lt_stop : t.start < t.stop
  stop_le_size : t.stop ≤ size source.toList
  word : ∃ word, IsSlice source.toList t.start t.stop word
  texts : ∀ template, t.kind = .template template → template.texts.length = template.holes.length + 1
  holes : ∀ hole ∈ t.kind.holes, t.start ≤ hole.offset ∧ hole.offset + size hole.source.toList ≤ t.stop ∧
    IsSlice source.toList hole.offset (hole.offset + size hole.source.toList) hole.source.toList

/-- Nothing but blanks stands between two offsets, with a line end among them or without. -/
def IsGap (source : String) (start stop : Nat) (newline : Bool) : Prop :=
  ∃ gap, IsSlice source.toList start stop gap ∧ (∀ c ∈ gap, isBlank c = true) ∧ newline = gap.any isLineEnd

/-- Where the last of the tokens ends, or `offset` if there is none. -/
def endFrom (offset : Nat) : List Token → Nat
  | [] => offset
  | t :: ts => endFrom t.stop ts

namespace Lexer

variable {source : String} {place : Cursor} {lexed : Lexed}

theorem covers_of_passes {start stop : Cursor} {word : List Char} {kind : TokenKind} {newline : Bool}
    (hstart : (Cursor.ofString source).Reaches start) (hword : start.Passes word stop) (hne : word ≠ [])
    (hholes : ∀ hole ∈ kind.holes, HoleBetween start stop hole) :
    Token.Covers source ⟨kind, start.offset, stop.offset, newline⟩ where
  start_lt_stop := by
    have hpos := Text.size_pos hne
    have hstop := hword.offset
    dsimp only
    omega
  stop_le_size := by
    have hsum := (hstart.trans hword.reaches).offset_add_size
    dsimp only
    omega
  word := ⟨word, hword.isSlice hstart⟩
  texts template _ := by simp [Template.texts, Template.holes]
  holes := by
    intro hole hhole
    obtain ⟨a, b, ha, hoffset, hpassed, hb⟩ := hholes hole hhole
    have hslice := hpassed.isSlice (hstart.trans ha)
    rw [hpassed.offset, hoffset] at hslice
    refine ⟨hoffset ▸ ha.offset_mono, ?_, hslice⟩
    rw [← hoffset, ← hpassed.offset]
    exact hb.offset_mono

theorem isGap_of_passes {a b : Cursor} {gap : List Char} (ha : (Cursor.ofString source).Reaches a)
    (hgap : a.Passes gap b) (hblank : ∀ c ∈ gap, isBlank c = true) :
    IsGap source a.offset b.offset (gap.any isLineEnd) :=
  ⟨gap, hgap.isSlice ha, hblank, rfl⟩

theorem Tiling.covers (h : Tiling place lexed) (hplace : (Cursor.ofString source).Reaches place) :
    ∀ t ∈ lexed.tokens, Token.Covers source t := by
  induction h with
  | finish => nofun
  | stuck => nofun
  | token hgap _ hword hne hholes _ ih =>
      have hstart := hplace.trans hgap.reaches
      intro t ht
      rcases List.mem_cons.mp ht with rfl | ht
      · exact covers_of_passes hstart hword hne hholes
      · exact ih (hstart.trans hword.reaches) t ht

theorem Tiling.offset_le_start (h : Tiling place lexed) : ∀ t ∈ lexed.tokens, place.offset ≤ t.start := by
  induction h with
  | finish => nofun
  | stuck => nofun
  | token hgap _ hword _ _ _ ih =>
      intro t ht
      rcases List.mem_cons.mp ht with rfl | ht
      · exact hgap.reaches.offset_mono
      · exact (hgap.reaches.trans hword.reaches).offset_mono.trans (ih t ht)

theorem Tiling.ordered (h : Tiling place lexed) : lexed.tokens.Pairwise fun t u => t.stop ≤ u.start := by
  induction h with
  | finish => exact .nil
  | stuck => exact .nil
  | token _ _ _ _ _ hrest ih => exact .cons hrest.offset_le_start ih

theorem Tiling.gap (h : Tiling place lexed) (hplace : (Cursor.ofString source).Reaches place)
    {before after : List Token} {t : Token} (hsplit : lexed.tokens = before ++ t :: after) :
    IsGap source (endFrom place.offset before) t.start t.newlineBefore := by
  induction h generalizing before with
  | finish => cases before <;> cases hsplit
  | stuck => cases before <;> cases hsplit
  | token hgap hblank hword _ _ _ ih =>
      cases before with
      | nil =>
          cases hsplit
          exact isGap_of_passes hplace hgap hblank
      | cons u before =>
          obtain ⟨rfl, hrest⟩ := List.cons.inj hsplit
          exact ih ((hplace.trans hgap.reaches).trans hword.reaches) hrest

/-- How a source ends behind its last token. -/
def Ending (source : String) (last : Nat) : Except LexError EndMark → Prop
  | .ok mark => mark.offset = size source.toList ∧ IsGap source last mark.offset mark.newlineBefore
  | .error e => e.offset < size source.toList ∧ ∃ newline, IsGap source last e.offset newline

theorem Tiling.ending (h : Tiling place lexed) (hplace : (Cursor.ofString source).Reaches place) :
    Ending source (endFrom place.offset lexed.tokens) lexed.result := by
  induction h with
  | finish hgap hblank hend =>
      have hsum := (hplace.trans hgap.reaches).offset_add_size
      rw [hend, size, Nat.add_zero] at hsum
      exact ⟨hsum, isGap_of_passes hplace hgap hblank⟩
  | stuck hgap hblank hmore =>
      have hsum := (hplace.trans hgap.reaches).offset_add_size
      have hpos := Text.size_pos hmore
      exact ⟨by dsimp only; omega, _, isGap_of_passes hplace hgap hblank⟩
  | token hgap _ hword _ _ _ ih => exact ih ((hplace.trans hgap.reaches).trans hword.reaches)

end Lexer

/-- The lexer ends for every source, and its tokens tile the source: each covers a slice of its own, in their order,
with nothing but blanks before it, of which it knows whether a line ends there, and behind the last one up to the end
mark, which stands at the end of the source, or up to the error. -/
theorem lex_tiles (source : String) :
    (∀ t ∈ (lex source).tokens, t.Covers source) ∧
      ((lex source).tokens.Pairwise fun t u => t.stop ≤ u.start) ∧
      (∀ before t after, (lex source).tokens = before ++ t :: after →
        IsGap source (endFrom 0 before) t.start t.newlineBefore) ∧
      Lexer.Ending source (endFrom 0 (lex source).tokens) (lex source).result := by
  have htiling : Lexer.Tiling (Cursor.ofString source) (lex source) := Lexer.tiling_scan _
  have hstart := Cursor.Reaches.refl (Cursor.ofString source)
  exact ⟨htiling.covers hstart, htiling.ordered, fun _ _ _ hsplit => htiling.gap hstart hsplit, htiling.ending hstart⟩

end Syntax

end ScriptRepl
