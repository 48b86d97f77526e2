import ScriptRepl.Proofs.Syntax.Clipped
import ScriptRepl.Proofs.Syntax.Unclosed

/-! Blanks in the place of a comment leave all other tokens as they are, but for one thing: if the comment comes behind
a line end, so does the token that then stands behind the blanks. -/
namespace ScriptRepl.Syntax

open Text (Cursor isBlank isLineEnd isNameStart isNameChar size size_append splitNear splitNear_size)

namespace Lexer

variable {more ds : List Char} {place after stop : Cursor} {c : Char} {kind : TokenKind}

/-! ### Tokens before a comment -/

theorem endsNumber_space (ds : List Char) : EndsNumber (' ' :: ds) := by
  rintro _ ⟨⟩
  decide

theorem decided_space (ds : List Char) :
    ∀ d ∈ (' ' :: ds).head?, d ≠ '/' ∧ d ≠ '*' ∧ Number.isDigit d = false := by
  rintro _ ⟨⟩
  decide

/-- A token that ends before a comment ends there too if a blank stands in the place of the comment's first
character, whatever follows. -/
theorem lexeme_before (h : lexeme c (after.extended ('/' :: ds)) = .ok (kind, stop))
    (hstop : ds.length < stop.rest.length) :
    ∃ first : Cursor, stop = first.extended ('/' :: ds) ∧
      ∀ es, lexeme c (after.extended (' ' :: es)) = .ok (kind, first.extended (' ' :: es)) := by
  obtain ⟨first, rfl, hclosed⟩ := lexeme_clipped h hstop
  refine ⟨first, rfl, fun es => ?_⟩
  have hspace : ∀ (p : Char → Bool), p ' ' = false → ∀ d ∈ (' ' :: es).head?, p d = false := by
    rintro p hp _ ⟨⟩
    exact hp
  have hpunct : Unpunctuated (' ' :: es) := by
    rintro _ ⟨⟩ p
    cases p <;> decide
  cases yields_of_lexeme hclosed with
  | line hfirst =>
      have hpeek : (after.extended ('/' :: ds)).peek? = some '/' := by
        obtain ⟨n, _ | ⟨d, cs⟩⟩ := after
        · cases hfirst.2
        · exact hfirst.2
      rw [lexeme, if_pos ⟨hfirst.1, hpeek⟩, Except.ok.injEq, Prod.mk.injEq] at h
      have hopen : (after.skipWhile (· != '\n')).rest ≠ [] := by
        intro hnil
        rw [← h.2] at hstop
        have hends : (('/' : Char) != '\n') = false := @ends_of_clipped ('/' :: ds) _ _ hstop hnil '/' rfl
        cases hends
      rw [lexeme_decided (decided_space es), if_pos hfirst, Cursor.skipWhile_extended fun hnil => absurd hnil hopen]
  | block hfirst hblock =>
      have hother : ¬(c = '/' ∧ after.peek? = some '/') := by
        rintro ⟨-, hpeek⟩
        rw [hfirst.2] at hpeek
        cases hpeek
      rw [lexeme_decided (decided_space es), if_neg hother, if_pos hfirst]
      exact blockComment_extended hfirst.2 hblock
  | text => exact lexeme_extended hclosed trivial
  | template => exact lexeme_extended hclosed trivial
  | number => exact lexeme_extended hclosed fun _ => endsNumber_space es
  | name => exact lexeme_extended hclosed fun _ => hspace _ (by decide)
  | keyword => exact lexeme_extended hclosed fun _ => hspace _ (by decide)
  | punct => exact lexeme_extended hclosed ⟨hpunct, fun _ => hspace _ (by decide)⟩

/-! ### Blanks in its place -/

/-- The blanks before a comment, and those in its place, come before what stands behind it. -/
theorem scan_gap {stop : Cursor} {word : List Char} (hn : (place.skipWhile isBlank).next? = some (c, after))
    (hpasses : after.Passes word stop) (hc : c.utf8Size = 1) :
    scan ⟨place.offset, place.rest.takeWhile isBlank ++ ' ' :: (List.replicate (size word) ' ' ++ stop.rest)⟩ =
      (scan stop).behind ((place.rest.takeWhile isBlank).any isLineEnd) := by
  have hspaces : ∀ n, size (List.replicate n ' ') = n := by
    intro n
    induction n with
    | zero => rfl
    | succ n ih => rw [List.replicate_succ, size, ih, Nat.add_comm, show ' '.utf8Size = 1 from rfl]
  have hblanks : ∀ d ∈ place.rest.takeWhile isBlank ++ ' ' :: List.replicate (size word) ' ', isBlank d = true := by
    intro d hd
    rcases List.mem_append.mp hd with hgap | hspace
    · exact List.mem_takeWhile_imp hgap
    · rw [← List.replicate_succ] at hspace
      rw [List.eq_of_mem_replicate hspace]
      decide
  have hline : (place.rest.takeWhile isBlank ++ ' ' :: List.replicate (size word) ' ').any isLineEnd =
      (place.rest.takeWhile isBlank).any isLineEnd := by
    rw [List.any_append, ← List.replicate_succ, List.any_replicate]
    simp [show isLineEnd ' ' = false by decide]
  have hplace : (⟨place.offset + size (place.rest.takeWhile isBlank ++ ' ' :: List.replicate (size word) ' '),
      stop.rest⟩ : Cursor) = stop := by
    have hstop := (((Cursor.passes_skipWhile isBlank place).trans (Cursor.passes_of_next? hn)).trans hpasses).offset
    rw [size_append, size_append, size, hc, size] at hstop
    rw [size_append, size, hspaces, show ' '.utf8Size = 1 from rfl]
    obtain ⟨n, rest⟩ := stop
    exact congrArg (Cursor.mk · rest) (by dsimp only at hstop; omega)
  have hscan := scan_blanks hblanks place.offset stop.rest
  rw [List.append_assoc, List.cons_append, hline, hplace] at hscan
  exact hscan

/-- Where a comment stands, and what becomes of the tokens when as many blanks as it has bytes take its place. -/
theorem scan_overwritten {before rest : List Token} {t : Token} (h : (scan place).tokens = before ++ t :: rest)
    (ht : t.kind = .comment) :
    ∃ (first : Cursor) (word ds : List Char), place = first.extended ('/' :: (word ++ ds)) ∧
      t.start = first.offset + size first.rest ∧ t.stop = t.start + 1 + size word ∧
      scan (first.extended (' ' :: (List.replicate (size word) ' ' ++ ds))) =
        ⟨before ++ (Lexed.behind t.newlineBefore ⟨rest, (scan place).result⟩).tokens,
          (Lexed.behind t.newlineBefore ⟨rest, (scan place).result⟩).result⟩ := by
  induction before generalizing place with
  | nil =>
      obtain ⟨c, after, kind, stop, hn, hl, rfl, hrest⟩ := exists_lexeme_of_tokens h
      obtain rfl : kind = .comment := ht
      have hslash : c = '/' := by
        cases yields_of_lexeme hl with
        | line hfirst => exact hfirst.1
        | block hfirst => exact hfirst.1
      subst hslash
      obtain ⟨word, hword⟩ := (reaches_lexeme hl).passes
      have hgap := Cursor.passes_skipWhile isBlank place
      have hfirst := hgap.trans (Cursor.passes_of_next? hn)
      refine ⟨⟨place.offset, place.rest.takeWhile isBlank⟩, word, stop.rest, ?_, hgap.offset, ?_, ?_⟩
      · have hchars := (hfirst.trans hword).rest
        rw [List.append_assoc, List.append_assoc] at hchars
        exact congrArg (Cursor.mk place.offset) hchars
      · dsimp only
        rw [hword.offset, (Cursor.passes_of_next? hn).offset]
        rfl
      · rw [scan_of_lexeme hn hl, ← hrest]
        exact scan_gap hn hword rfl
  | cons u before ih =>
      obtain ⟨c, after, kind, stop, hn, hl, rfl, hrest⟩ := exists_lexeme_of_tokens h
      obtain ⟨first, word, ds, rfl, hstart, hstop, hscan⟩ := ih hrest
      obtain ⟨first', rfl, hbegin⟩ := exists_extended_of_reaches
        (((Cursor.reaches_skipWhile isBlank place).trans (Cursor.reaches_of_next? hn)).trans (reaches_lexeme hl))
      have hlt : (word ++ ds).length < (first.extended ('/' :: (word ++ ds))).rest.length := by
        simp [Cursor.extended]
        omega
      obtain ⟨after', hn', rfl⟩ := next?_clipped hn (Nat.le_trans hlt (reaches_lexeme hl).length_le)
      obtain ⟨first'', hsame, hlexeme⟩ := lexeme_before hl hlt
      obtain rfl := extended_injective hsame
      obtain ⟨hskip, htake⟩ := skipBlanks_extended hn' ('/' :: (word ++ ds))
      refine ⟨first', word, ds, rfl, hstart.trans hbegin.symm, hstop, ?_⟩
      rw [scan_of_lexeme_extended hn' (hlexeme _), hscan, scan_of_lexeme hn hl, hskip, htake]
      rfl

end Lexer

/-- The source with a space for each byte between the offsets. -/
def overwrite (source : String) (start stop : Nat) : String :=
  String.ofList
    ((splitNear start source.toList).1 ++ (List.replicate (stop - start) ' ' ++ (splitNear stop source.toList).2))

/-- The tokens of a source one of whose comments is overwritten. -/
theorem lex_overwrite {source : String} {before rest : List Token} {t : Token} {result : Except LexError EndMark}
    (h : lex source = ⟨before ++ t :: rest, result⟩) (ht : t.kind = .comment) :
    lex (overwrite source t.start t.stop) =
      ⟨before ++ (Lexed.behind t.newlineBefore ⟨rest, result⟩).tokens,
        (Lexed.behind t.newlineBefore ⟨rest, result⟩).result⟩ := by
  obtain ⟨first, word, ds, hplace, hstart, hstop, hscan⟩ :=
    @Lexer.scan_overwritten (Cursor.ofString source) _ _ _ (congrArg Lexed.tokens h) ht
  have hoffset : first.offset = 0 := (congrArg Cursor.offset hplace).symm
  have hsource : source.toList = first.rest ++ '/' :: (word ++ ds) := congrArg Cursor.rest hplace
  have hword : size (first.rest ++ '/' :: word) = t.stop := by
    rw [size_append, size, hstop, hstart, hoffset, show '/'.utf8Size = 1 from rfl]
    omega
  have hbefore : (splitNear t.start source.toList).1 = first.rest := by
    rw [hstart, hoffset, Nat.zero_add, hsource, splitNear_size]
  have hafter : (splitNear t.stop source.toList).2 = ds := by
    rw [← hword, hsource, ← List.cons_append, ← List.append_assoc, splitNear_size]
  have hspaces : t.stop - t.start = size word + 1 := by omega
  have hchars : (overwrite source t.start t.stop).toList =
      first.rest ++ ' ' :: (List.replicate (size word) ' ' ++ ds) := by
    rw [overwrite, String.toList_ofList, hbefore, hafter, hspaces, List.replicate_succ, List.cons_append]
  have hcursor : Cursor.ofString (overwrite source t.start t.stop) =
      first.extended (' ' :: (List.replicate (size word) ' ' ++ ds)) := by
    rw [Cursor.ofString, hchars, Cursor.extended, hoffset]
  have hresult : (Lexer.scan (Cursor.ofString source)).result = result := congrArg Lexed.result h
  rw [lex, hcursor, hscan, hresult]

end ScriptRepl.Syntax
