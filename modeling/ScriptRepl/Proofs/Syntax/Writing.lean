import ScriptRepl.Proofs.Syntax.Spelling

/-! Texts that are a phrase of the grammar wherever they stand, if a blank, a comma or nothing follows them. Lists and
objects are such texts if their entries are, however they are broken into lines. -/
namespace ScriptRepl.Syntax

open Text (isBlank isNameChar isName)

/-- What comes first cannot belong to the token before it. -/
def Parted (rest : List Char) : Prop :=
  ∀ c ∈ rest.head?, c = ' ' ∨ c = '\n' ∨ c = ','

theorem Parted.isNameChar {rest : List Char} (h : Parted rest) : ∀ c ∈ rest.head?, isNameChar c = false := by
  intro c hc
  rcases h c hc with rfl | rfl | rfl <;> decide

theorem Parted.endsNumber {rest : List Char} (h : Parted rest) : Lexer.EndsNumber rest := by
  intro c hc
  rcases h c hc with rfl | rfl | rfl <;> decide

/-- The characters are cut into tokens that are a phrase for `x`. -/
def Writes {α : Type} (phrase : Phrase α) (cs : List Char) (x : α) : Prop :=
  ∃ kinds, (∀ rest kinds', Parted rest → Lexes rest kinds' → Lexes (cs ++ rest) (kinds ++ kinds')) ∧
    ∀ ts : List Token, ts.map Token.kind = kinds → phrase ts x

variable {α β : Type} {phrase : Phrase α} {phrase' : Phrase β} {cs : List Char} {x : α} {y : β} {kind : TokenKind}

theorem Writes.imp (h : Writes phrase cs x) (himp : ∀ ts, phrase ts x → phrase' ts y) : Writes phrase' cs y := by
  obtain ⟨kinds, hlexes, hphrase⟩ := h
  exact ⟨kinds, hlexes, fun ts hts => himp ts (hphrase ts hts)⟩

theorem writes_token (hlexes : ∀ rest kinds, Parted rest → Lexes rest kinds → Lexes (cs ++ rest) (kind :: kinds))
    (hphrase : ∀ t : Token, t.kind = kind → phrase [t] x) : Writes phrase cs x := by
  refine ⟨[kind], hlexes, fun ts hts => ?_⟩
  obtain ⟨t, rfl, ht⟩ := List.map_eq_singleton_iff.mp hts
  exact hphrase t ht

theorem writes_name {name : String} (hname : isName name = true)
    (hphrase : ∀ t : Token, t.kind = Lexer.nameKind name → phrase [t] x) : Writes phrase name.toList x :=
  writes_token (fun _ _ hrest h => lexes_name hname hrest.isNameChar h) hphrase

theorem writes_quote {s : String} (hphrase : ∀ t : Token, t.kind = .text s → phrase [t] x) :
    Writes phrase (Inspection.quote s).toList x :=
  writes_token (fun _ _ _ h => lexes_quote s h) hphrase

theorem writes_number {text : String} {n : Float} (htext : IsToken text (.number n))
    (hphrase : ∀ t : Token, t.kind = .number n → phrase [t] x) : Writes phrase text.toList x :=
  writes_token (fun _ _ hrest h => lexes_number htext hrest.endsNumber h) hphrase

/-- A token and what comes behind it. -/
theorem Writes.token {ds : List Char} (h : Writes phrase cs x)
    (hlexes : ∀ rest kinds, Lexes (cs ++ rest) kinds → Lexes (ds ++ (cs ++ rest)) (kind :: kinds))
    (hphrase : ∀ t ts, t.kind = kind → phrase ts x → phrase' (t :: ts) y) : Writes phrase' (ds ++ cs) y := by
  obtain ⟨kinds, hcs, hkinds⟩ := h
  refine ⟨kind :: kinds, fun rest kinds' hrest h => ?_, fun ts hts => ?_⟩
  · rw [List.append_assoc]
    exact hlexes rest _ (hcs rest kinds' hrest h)
  · obtain ⟨t, ts, rfl, ht, hts⟩ := List.map_eq_cons_iff.mp hts
    exact hphrase t ts ht (hkinds ts hts)

theorem Writes.mark {c : Char} {p : Punct} (h : Writes phrase cs x) (hmark : (c, p) ∈ marks)
    (hphrase : ∀ t ts, t.kind = .punct p → phrase ts x → phrase' (t :: ts) y) : Writes phrase' (c :: cs) y := by
  have hmarked : Writes phrase' ([c] ++ cs) y := h.token (fun _ _ hrest => lexes_mark hmark hrest) hphrase
  exact hmarked

theorem Writes.blanks {blanks : List Char} (h : Writes phrase cs x) (hblanks : ∀ c ∈ blanks, isBlank c = true) :
    Writes phrase (blanks ++ cs) x := by
  obtain ⟨kinds, hcs, hkinds⟩ := h
  refine ⟨kinds, fun rest kinds' hrest h => ?_, hkinds⟩
  rw [List.append_assoc]
  exact lexes_blanks hblanks (hcs rest kinds' hrest h)

/-! ### Entries between brackets -/

open Grammar (Separated)

section

variable {close : Punct} {item : Phrase α} {gap blanks : List Char} {b c : Char}

theorem Writes.last (h : Writes item cs x) (hclose : (c, close) ∈ marks) (hb : b = ' ' ∨ b = '\n')
    (hblanks : ∀ d ∈ blanks, isBlank d = true) :
    Writes (Separated close item) (cs ++ b :: (blanks ++ [c])) [x] := by
  obtain ⟨kinds, hcs, hkinds⟩ := h
  refine ⟨kinds ++ [.punct close], fun rest kinds' _ h => ?_, fun ts hts => ?_⟩
  · have hclosed : Lexes (b :: (blanks ++ c :: rest)) (.punct close :: kinds') := by
      refine lexes_blank ?_ (lexes_blanks hblanks (lexes_mark hclose h))
      rcases hb with rfl | rfl <;> decide
    have hparted : Parted (b :: (blanks ++ c :: rest)) := by
      rintro _ ⟨⟩
      rcases hb with rfl | rfl
      · exact .inl rfl
      · exact .inr (.inl rfl)
    simpa using hcs _ _ hparted hclosed
  · obtain ⟨us, vs, rfl, hus, hvs⟩ := List.map_eq_append_iff.mp hts
    obtain ⟨t, rfl, ht⟩ := List.map_eq_singleton_iff.mp hvs
    exact .last (hkinds us hus) ht

theorem Writes.more {more : List Char} {xs : List α} (h : Writes item cs x)
    (hmore : Writes (Separated close item) more xs) (hgap : ∀ d ∈ gap, isBlank d = true) :
    Writes (Separated close item) (cs ++ ',' :: (gap ++ more)) (x :: xs) := by
  obtain ⟨kinds, hcs, hkinds⟩ := h
  obtain ⟨kindsMore, hlexesMore, hphraseMore⟩ := hmore
  refine ⟨kinds ++ .punct .comma :: kindsMore, fun rest kinds' hrest h => ?_, fun ts hts => ?_⟩
  · have hcomma : Lexes (',' :: (gap ++ (more ++ rest))) (.punct .comma :: (kindsMore ++ kinds')) :=
      lexes_mark (by decide) (lexes_blanks hgap (hlexesMore rest kinds' hrest h))
    have hparted : Parted (',' :: (gap ++ (more ++ rest))) := by
      rintro _ ⟨⟩
      exact .inr (.inr rfl)
    simpa using hcs _ _ hparted hcomma
  · obtain ⟨us, vs, rfl, hus, hvs⟩ := List.map_eq_append_iff.mp hts
    obtain ⟨t, ws, rfl, ht, hws⟩ := List.map_eq_cons_iff.mp hvs
    exact .more (hkinds us hus) ht (hphraseMore ws hws)

theorem writes_separated {entries : List (List Char)} {xs : List α} (hentries : List.Forall₂ (Writes item) entries xs)
    (hne : entries ≠ []) (hclose : (c, close) ∈ marks) (hgap : ∀ d ∈ gap, isBlank d = true) (hb : b = ' ' ∨ b = '\n')
    (hblanks : ∀ d ∈ blanks, isBlank d = true) :
    Writes (Separated close item) ((',' :: gap).intercalate entries ++ b :: (blanks ++ [c])) xs := by
  induction hentries with
  | nil => exact absurd rfl hne
  | @cons cs x entries xs h hrest ih =>
      cases hrest with
      | nil =>
          rw [List.intercalate_singleton]
          exact h.last hclose hb hblanks
      | cons h' hrest =>
          rw [List.intercalate_cons_cons]
          simpa using h.more (ih (by simp)) hgap

end

open Inspection (layout indentation)

theorem isBlank_indentation (n : Nat) : ∀ c ∈ (indentation n).toList, isBlank c = true := by
  intro c hc
  rw [indentation, String.toList_join] at hc
  obtain ⟨step, hstep, hc⟩ := List.mem_flatMap.mp hc
  rw [(List.mem_replicate.mp hstep).2] at hc
  simp only [String.reduceToList, List.mem_cons, List.not_mem_nil, or_false, or_self] at hc
  rw [hc]
  rfl

/-- However the entries are broken into lines, there is a comma between each two of them, and else there are blanks. -/
theorem toList_layout (style : InspectStyle) (opening closing : String) (entries : List String) (depth : Nat) :
    ∃ lead gap indent blanks : List Char, ∃ b, (b = ' ' ∨ b = '\n') ∧
      (∀ cs ∈ [lead, gap, indent, blanks], ∀ c ∈ cs, isBlank c = true) ∧
      (layout style opening closing entries depth).toList =
        opening.toList ++ (lead ++ ((',' :: gap).intercalate (entries.map fun e => indent ++ e.toList) ++
          b :: (blanks ++ closing.toList))) := by
  unfold layout
  dsimp only
  split
  · refine ⟨[' '], [' '], [], [], ' ', .inl rfl, ?_, ?_⟩
    · simp
      decide
    · simp [String.toList_intercalate]
  · refine ⟨['\n'], ['\n'], (indentation (depth + 1)).toList, (indentation depth).toList, '\n', .inr rfl, ?_, ?_⟩
    · simp only [List.mem_cons, List.not_mem_nil, or_false, forall_eq_or_imp, forall_eq]
      exact ⟨by decide, by decide, isBlank_indentation _, isBlank_indentation _⟩
    · simp [String.toList_intercalate, Function.comp_def]

theorem writes_layout {opens close : Punct} {o c : Char} {opening closing : String} (hopening : opening.toList = [o])
    (hclosing : closing.toList = [c]) (hopens : (o, opens) ∈ marks) (hclose : (c, close) ∈ marks) {item : Phrase α}
    {entries : List String} {xs : List α} (hentries : List.Forall₂ (fun e x => Writes item e.toList x) entries xs)
    (hne : entries ≠ []) (style : InspectStyle) (depth : Nat)
    (hphrase : ∀ t ts, t.kind = .punct opens → Separated close item ts xs → phrase' (t :: ts) y) :
    Writes phrase' (layout style opening closing entries depth).toList y := by
  obtain ⟨lead, gap, indent, blanks, b, hb, hblank, htext⟩ := toList_layout style opening closing entries depth
  have hlines : List.Forall₂ (Writes item) (entries.map fun e => indent ++ e.toList) xs := by
    rw [List.forall₂_map_left_iff]
    exact hentries.imp fun e x he => he.blanks (hblank indent (by simp))
  have hseparated := writes_separated hlines (by simpa using hne) hclose (hblank gap (by simp)) hb
    (hblank blanks (by simp))
  rw [htext, hopening, hclosing]
  exact (hseparated.blanks (hblank lead (by simp))).mark hopens hphrase

/-! ### Expressions -/

open Grammar (Nested Primary Assignment Field fieldKey?)

variable {deeper : Nested} {e : Expr} {style : InspectStyle}

theorem assignment_of_negate {t : Token} {ts : List Token} (ht : t.kind = .punct .minus) (h : deeper.unary ts e) :
    Assignment deeper (t :: ts) (.unary .negate e) := by
  have hop : Parser.unaryOf? t.kind = some .negate := by
    rw [ht]
    rfl
  exact .conditional (.binary ((Grammar.Binary.unary (.operator hop h)).of_le (by decide)))

theorem fieldKey?_nameKind (name : String) : fieldKey? (Lexer.nameKind name) = some name := by
  unfold Lexer.nameKind Keyword.ofText?
  split
  · rename_i k hk
    have htext := List.find?_some hk
    rw [beq_iff_eq] at htext
    exact congrArg some htext
  · rfl

/-- What a field has behind its key. -/
def ColonValue (deeper : Nested) : Phrase Expr :=
  fun ts e => ∃ t us, ts = t :: us ∧ t.kind = .punct .colon ∧ Assignment deeper us e

/-- A key is written as a name where it can be, and a keyword is a key like any name. -/
theorem writes_field (hstyle : style.colors = false) {key value : String}
    (hvalue : Writes (Assignment deeper) value.toList e) :
    Writes (Field deeper) (Inspection.key style key ++ ": " ++ value).toList (key, e) := by
  have hcolon : Writes (ColonValue deeper) (':' :: ([' '] ++ value.toList)) e :=
    (hvalue.blanks (by simp [isBlank])).mark (by decide) fun t ts ht hts => ⟨t, ts, rfl, ht, hts⟩
  have hkeyed : ∀ {kind : TokenKind}, fieldKey? kind = some key → ∀ t ts, t.kind = kind → ColonValue deeper ts e →
      Field deeper (t :: ts) (key, e) := by
    rintro kind hkind t _ ht ⟨t', us, rfl, ht', hus⟩
    exact .keyed (by rw [ht, hkind]) ht' hus
  have htext : (Inspection.key style key ++ ": " ++ value).toList =
      (Inspection.key style key).toList ++ ':' :: ([' '] ++ value.toList) := by
    simp
  rw [htext]
  unfold Inspection.key
  split
  · rename_i hname
    refine hcolon.token (fun rest kinds hrest => lexes_name hname ?_ hrest) (hkeyed (fieldKey?_nameKind key))
    rintro _ ⟨⟩
    decide
  · rw [Inspection.tinted, if_neg (by simp [hstyle])]
    exact hcolon.token (fun rest kinds hrest => lexes_quote key hrest) (hkeyed rfl)

end ScriptRepl.Syntax
