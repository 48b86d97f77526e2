import Mathlib.Data.List.TakeWhile
import ScriptRepl.Proofs.Console.Offsets
import ScriptRepl.Proofs.Text.Size

/-! Where motions by words go. Both are said by the runs of characters that a text begins or ends with, each as long as
it can be; what a motion to the left passes over is just what deleting the word takes away. -/
namespace ScriptRepl

namespace Text

variable {p : Char → Bool} {cs run rest kept : List Char}

/-- The text begins with as many characters of the class as `run` has. -/
structure BeginsInRun (p : Char → Bool) (cs run rest : List Char) : Prop where
  parts : cs = run ++ rest
  inside : ∀ c ∈ run, p c = true
  boundary : ∀ c ∈ rest.head?, p c = false

/-- The text ends with as many characters of the class as `run` has. -/
structure EndsInRun (p : Char → Bool) (cs kept run : List Char) : Prop where
  parts : cs = kept ++ run
  inside : ∀ c ∈ run, p c = true
  boundary : ∀ c ∈ kept.getLast?, p c = false

theorem beginsInRun_iff : BeginsInRun p cs run rest ↔ run = cs.takeWhile p ∧ rest = cs.dropWhile p := by
  constructor
  · rintro ⟨rfl, hinside, hboundary⟩
    rw [List.takeWhile_append_of_pos hinside, List.dropWhile_append_of_pos hinside]
    cases rest with
    | nil => simp
    | cons c rest => simp [hboundary c rfl]
  · rintro ⟨rfl, rfl⟩
    refine ⟨List.takeWhile_append_dropWhile.symm, fun c hc => List.mem_takeWhile_imp hc, ?_⟩
    intro c hc
    have hhead := List.head?_dropWhile_not p cs
    rw [hc] at hhead
    exact hhead

theorem endsInRun_iff_reverse : EndsInRun p cs kept run ↔ BeginsInRun p cs.reverse run.reverse kept.reverse := by
  have hparts : cs = kept ++ run ↔ cs.reverse = run.reverse ++ kept.reverse := by
    rw [← List.reverse_append, List.reverse_inj]
  constructor
  · rintro ⟨hcs, hinside, hboundary⟩
    refine ⟨hparts.mp hcs, ?_, ?_⟩
    · simpa using hinside
    · simpa using hboundary
  · rintro ⟨hcs, hinside, hboundary⟩
    refine ⟨hparts.mpr hcs, ?_, ?_⟩
    · simpa using hinside
    · simpa using hboundary

theorem endsInRun_iff :
    EndsInRun p cs kept run ↔
      run.reverse = cs.reverse.takeWhile p ∧ kept.reverse = cs.reverse.dropWhile p := by
  rw [endsInRun_iff_reverse, beginsInRun_iff]

/-! ### To the left -/

/-- A motion to the left passes over the blanks that the text ends with and over the run before them, of word
characters or of symbols. That run is empty only if nothing else is there. -/
structure StopsLeft (before kept run blanks : List Char) : Prop where
  afterRun : EndsInRun isBlank before (kept ++ run) blanks
  afterKept : EndsInRun isWordChar (kept ++ run) kept run ∨ EndsInRun isSymbolChar (kept ++ run) kept run
  kept_eq_nil : run = [] → kept = []

variable {before after passed blanks : List Char}

theorem isSymbolChar_of_not {c : Char} (hblank : isBlank c = false) (hword : isWordChar c = false) :
    isSymbolChar c = true := by
  simp [isSymbolChar, hblank, hword]

theorem not_isSymbolChar_of_isWordChar {c : Char} (h : isWordChar c = true) : isSymbolChar c = false := by
  simp [isSymbolChar, h]

/-- The run is the one that the last character before the blanks belongs to. -/
theorem StopsLeft.leadingRun_eq (h : StopsLeft before kept run blanks) :
    leadingRun (kept ++ run).reverse = run.reverse := by
  cases hreverse : run.reverse with
  | nil =>
      have hrun : run = [] := List.reverse_eq_nil_iff.mp hreverse
      rw [hrun, h.kept_eq_nil hrun]
      rfl
  | cons c cs =>
      have hc : c ∈ run := by
        rw [← List.mem_reverse, hreverse]
        exact List.mem_cons_self
      have hcons : (kept ++ run).reverse = c :: (cs ++ kept.reverse) := by
        rw [List.reverse_append, hreverse, List.cons_append]
      rw [hcons, leadingRun, ← hcons]
      rcases h.afterKept with hword | hsymbol
      · rw [if_pos (hword.inside c hc), ← (endsInRun_iff.mp hword).1, hreverse]
      · have hnot : ¬ isWordChar c = true := by
          intro hword
          have hinside := hsymbol.inside c hc
          rw [not_isSymbolChar_of_isWordChar hword] at hinside
          cases hinside
        rw [if_neg hnot, ← (endsInRun_iff.mp hsymbol).1, hreverse]

theorem StopsLeft.wordLeft_eq (h : StopsLeft before kept run blanks) :
    wordLeft before = (run ++ blanks).reverse := by
  obtain ⟨hblanks, hmiddle⟩ := endsInRun_iff.mp h.afterRun
  rw [wordLeft, ← hblanks, ← hmiddle, h.leadingRun_eq, List.reverse_append]

theorem exists_stopsLeft (before : List Char) : ∃ kept run blanks, StopsLeft before kept run blanks := by
  have hblanks : EndsInRun isBlank before (before.reverse.dropWhile isBlank).reverse
      (before.reverse.takeWhile isBlank).reverse := by
    rw [endsInRun_iff, List.reverse_reverse, List.reverse_reverse]
    exact ⟨rfl, rfl⟩
  have hboundary := (endsInRun_iff_reverse.mp hblanks).boundary
  rw [List.reverse_reverse] at hboundary
  cases hmiddle : before.reverse.dropWhile isBlank with
  | nil =>
      rw [hmiddle] at hblanks
      exact ⟨[], [], _, hblanks, .inl ⟨rfl, nofun, nofun⟩, fun _ => rfl⟩
  | cons c cs =>
      have hrun (p : Char → Bool) : EndsInRun p (c :: cs).reverse ((c :: cs).dropWhile p).reverse
          ((c :: cs).takeWhile p).reverse := by
        rw [endsInRun_iff, List.reverse_reverse, List.reverse_reverse, List.reverse_reverse]
        exact ⟨rfl, rfl⟩
      have hstops {p : Char → Bool} (hp : p = isWordChar ∨ p = isSymbolChar) (hc : p c = true) :
          StopsLeft before ((c :: cs).dropWhile p).reverse ((c :: cs).takeWhile p).reverse
            (before.reverse.takeWhile isBlank).reverse := by
        rw [hmiddle] at hblanks
        have hparts := (hrun p).parts
        refine ⟨?_, ?_, ?_⟩
        · rw [← hparts]
          exact hblanks
        · rw [← hparts]
          rcases hp with rfl | rfl
          · exact .inl (hrun _)
          · exact .inr (hrun _)
        · intro hempty
          rw [List.takeWhile_cons, if_pos hc] at hempty
          simp at hempty
      rw [hmiddle] at hboundary
      have hblank : isBlank c = false := hboundary c rfl
      cases hword : isWordChar c with
      | true => exact ⟨_, _, _, hstops (.inl rfl) hword⟩
      | false => exact ⟨_, _, _, hstops (.inr rfl) (isSymbolChar_of_not hblank hword)⟩

/-- There is one such place only. -/
theorem StopsLeft.unique {kept' run' blanks' : List Char} (h : StopsLeft before kept run blanks)
    (h' : StopsLeft before kept' run' blanks') : kept' = kept := by
  have hpassed : run' ++ blanks' = run ++ blanks := by
    rw [← List.reverse_inj, ← h'.wordLeft_eq, h.wordLeft_eq]
  have hparts : kept' ++ (run' ++ blanks') = kept ++ (run ++ blanks) := by
    rw [← List.append_assoc, ← List.append_assoc, ← h'.afterRun.parts, ← h.afterRun.parts]
  rw [hpassed] at hparts
  exact List.append_cancel_right hparts

theorem StopsLeft.passed_ne_nil (h : StopsLeft before kept run blanks) (hbefore : before ≠ []) :
    run ++ blanks ≠ [] := by
  intro hnone
  obtain ⟨hrun, hblanks⟩ := List.append_eq_nil_iff.mp hnone
  apply hbefore
  rw [h.afterRun.parts, h.kept_eq_nil hrun, hrun, hblanks]
  rfl

/-! ### To the right -/

/-- A motion to the right passes over the blanks that the text begins with; or else over a word and the blanks behind
it; or else over all up to the next word. -/
inductive StopsRight (after : List Char) : List Char → List Char → Prop where
  | blanks {passed rest : List Char} (hfirst : ∃ c ∈ after.head?, isBlank c = true)
      (hrun : BeginsInRun isBlank after passed rest) : StopsRight after passed rest
  | word {word middle blanks rest : List Char}
      (hfirst : ∃ c ∈ after.head?, isBlank c = false ∧ isWordChar c = true)
      (hrun : BeginsInRun isWordChar after word middle) (hblanks : BeginsInRun isBlank middle blanks rest) :
      StopsRight after (word ++ blanks) rest
  | symbols {passed rest : List Char} (hfirst : ∃ c ∈ after.head?, isBlank c = false ∧ isWordChar c = false)
      (hrun : BeginsInRun (fun c => !isWordChar c) after passed rest) : StopsRight after passed rest

theorem StopsRight.wordRight_eq (h : StopsRight after passed rest) : wordRight after = passed := by
  cases h with
  | blanks hfirst hrun =>
      obtain ⟨c, hc, hblank⟩ := hfirst
      obtain ⟨cs, rfl⟩ := List.head?_eq_some_iff.mp hc
      rw [wordRight, if_pos hblank, ← (beginsInRun_iff.mp hrun).1]
  | word hfirst hrun hblanks =>
      obtain ⟨c, hc, hblank, hword⟩ := hfirst
      obtain ⟨cs, rfl⟩ := List.head?_eq_some_iff.mp hc
      have hnot : ¬ isBlank c = true := by simp [hblank]
      obtain ⟨hrun, hmiddle⟩ := beginsInRun_iff.mp hrun
      rw [wordRight, if_neg hnot, if_pos hword, ← hrun, ← hmiddle, ← (beginsInRun_iff.mp hblanks).1]
  | symbols hfirst hrun =>
      obtain ⟨c, hc, hblank, hword⟩ := hfirst
      obtain ⟨cs, rfl⟩ := List.head?_eq_some_iff.mp hc
      have hnot : ¬ isBlank c = true := by simp [hblank]
      have hnoWord : ¬ isWordChar c = true := by simp [hword]
      rw [wordRight, if_neg hnot, if_neg hnoWord, ← (beginsInRun_iff.mp hrun).1]

theorem StopsRight.append (h : StopsRight after passed rest) : after = passed ++ rest := by
  cases h with
  | blanks _ hrun => exact hrun.parts
  | word _ hrun hblanks => rw [hrun.parts, hblanks.parts, List.append_assoc]
  | symbols _ hrun => exact hrun.parts

theorem exists_stopsRight {after : List Char} (hafter : after ≠ []) : ∃ passed rest, StopsRight after passed rest := by
  obtain ⟨c, cs, rfl⟩ := List.exists_cons_of_ne_nil hafter
  have hrun (p : Char → Bool) (ds : List Char) : BeginsInRun p ds (ds.takeWhile p) (ds.dropWhile p) :=
    beginsInRun_iff.mpr ⟨rfl, rfl⟩
  cases hblank : isBlank c with
  | true => exact ⟨_, _, .blanks ⟨c, rfl, hblank⟩ (hrun _ _)⟩
  | false =>
      cases hword : isWordChar c with
      | true => exact ⟨_, _, .word ⟨c, rfl, hblank, hword⟩ (hrun _ _) (hrun _ _)⟩
      | false => exact ⟨_, _, .symbols ⟨c, rfl, hblank, hword⟩ (hrun _ _)⟩

/-- The first character is passed over at least. -/
theorem StopsRight.passed_ne_nil (h : StopsRight after passed rest) : passed ≠ [] := by
  have hsome {p : Char → Bool} {run rest : List Char} (hfirst : ∃ c ∈ after.head?, p c = true)
      (hrun : BeginsInRun p after run rest) : run ≠ [] := by
    rintro rfl
    obtain ⟨c, hc, hp⟩ := hfirst
    rw [hrun.parts] at hc
    rw [hrun.boundary c hc] at hp
    cases hp
  cases h with
  | blanks hfirst hrun => exact hsome hfirst hrun
  | word hfirst hrun _ =>
      obtain ⟨c, hc, -, hword⟩ := hfirst
      exact fun hnone => hsome ⟨c, hc, hword⟩ hrun (List.append_eq_nil_iff.mp hnone).1
  | symbols hfirst hrun =>
      obtain ⟨c, hc, -, hword⟩ := hfirst
      exact hsome ⟨c, hc, by simp [hword]⟩ hrun

end Text

namespace Console.Buffer

open Text (EndsInRun StopsLeft StopsRight isBlank isSymbolChar)

variable {b : Buffer} {before after kept run blanks passed rest : List Char}

section

variable (hcut : Text.splitAt? b.cursor b.text.toList = some (before, after))

include hcut

theorem sides_of_cut : b.sides = (before, after) := by
  rw [sides, hcut, Option.getD_some]

theorem cursor_pos_iff : 0 < b.cursor ↔ before ≠ [] := by
  rw [← (Text.eq_append_of_splitAt? hcut).2]
  constructor
  · rintro hpos rfl
    cases hpos
  · exact Text.size_pos

theorem atEnd_iff_of_cut : b.atEnd = true ↔ after = [] := by
  obtain ⟨htext, hsize⟩ := Text.eq_append_of_splitAt? hcut
  rw [atEnd, decide_eq_true_iff, ← Text.size_toList, htext, ← hsize, Text.size_append]
  constructor
  · intro hsame
    by_contra hne
    have hpos := Text.size_pos hne
    omega
  · rintro rfl
    rfl

/-- The cursor goes to another place of the same text. -/
theorem edit_moves {x y : List Char} (hparts : before ++ after = x ++ y) (hmoves : Text.size x ≠ b.cursor) :
    Text.splitAt? (Text.size x) b.text.toList = some (x, y) ∧
      b.edit x y = (true, { b with cursor := Text.size x, suffix := none, generation := b.generation + 1 }) := by
  obtain ⟨htext, hsize⟩ := Text.eq_append_of_splitAt? hcut
  have hne : (x, y) ≠ b.sides := by
    rw [sides_of_cut hcut]
    intro hsame
    rw [(Prod.mk.inj hsame).1, hsize] at hmoves
    exact hmoves rfl
  have hsame : String.ofList (x ++ y) = b.text := by
    rw [← hparts, ← htext, String.ofList_toList]
  refine ⟨?_, ?_⟩
  · rw [htext, hparts, Text.splitAt?_size]
  · rw [edit_of_ne hne, place, hsame]

theorem cutWordLeft_of_stopsLeft (h : StopsLeft before kept run blanks) : b.cutWordLeft = (kept, run ++ blanks) := by
  have hbefore : b.before = kept ++ (run ++ blanks) := by
    rw [Buffer.before, sides_of_cut hcut, ← List.append_assoc]
    exact h.afterRun.parts
  have hword : Text.wordLeft b.before = (run ++ blanks).reverse := by
    rw [Buffer.before, sides_of_cut hcut]
    exact h.wordLeft_eq
  have hkept : b.before.length - (Text.wordLeft b.before).length = kept.length := by
    rw [hword, List.length_reverse, hbefore, List.length_append, Nat.add_sub_cancel]
  rw [cutWordLeft, hkept, hbefore, List.take_left, List.drop_left]

theorem wordLeft_of_stopsLeft (h : StopsLeft before kept run blanks) (hbefore : before ≠ []) :
    Text.size kept < b.cursor ∧ Text.splitAt? (Text.size kept) b.text.toList = some (kept, run ++ blanks ++ after) ∧
      b.wordLeft = (true, { b with cursor := Text.size kept, suffix := none, generation := b.generation + 1 }) ∧
      b.deleteWordBackward =
        (true, { b with
          text := String.ofList (kept ++ after)
          cursor := Text.size kept
          suffix := none
          generation := b.generation + 1 }) := by
  have hparts : before = kept ++ (run ++ blanks) := by
    rw [← List.append_assoc]
    exact h.afterRun.parts
  have hless : Text.size kept < b.cursor := by
    have hsize := Text.size_pos (h.passed_ne_nil hbefore)
    rw [← (Text.eq_append_of_splitAt? hcut).2, hparts, Text.size_append]
    omega
  have hmoved := edit_moves hcut (x := kept) (y := run ++ blanks ++ after)
    (by rw [hparts, List.append_assoc]) (Nat.ne_of_lt hless)
  have hafter : b.after = after := by rw [Buffer.after, sides_of_cut hcut]
  refine ⟨hless, hmoved.1, ?_, ?_⟩
  · rw [wordLeft, cutWordLeft_of_stopsLeft hcut h, hafter]
    exact hmoved.2
  · have hne : (kept, after) ≠ b.sides := by
      rw [sides_of_cut hcut]
      intro hsame
      have hlength := congrArg List.length (Prod.mk.inj hsame).1
      rw [hparts, List.length_append] at hlength
      have hpassed := List.length_pos_iff.mpr (h.passed_ne_nil hbefore)
      omega
    rw [deleteWordBackward, cutWordLeft_of_stopsLeft hcut h, hafter, edit_of_ne hne]
    rfl

theorem wordRight_of_stopsRight (h : StopsRight after passed rest) :
    b.cursor < Text.size (before ++ passed) ∧
      Text.splitAt? (Text.size (before ++ passed)) b.text.toList = some (before ++ passed, rest) ∧
      b.wordRight =
        (true, { b with cursor := Text.size (before ++ passed), suffix := none, generation := b.generation + 1 }) := by
  have hmore : b.cursor < Text.size (before ++ passed) := by
    have hsize := Text.size_pos h.passed_ne_nil
    rw [← (Text.eq_append_of_splitAt? hcut).2, Text.size_append]
    omega
  have hmoved := edit_moves hcut (x := before ++ passed) (y := rest)
    (by rw [List.append_assoc, ← h.append]) (Nat.ne_of_gt hmore)
  have hbefore : b.before = before := by rw [Buffer.before, sides_of_cut hcut]
  have hafter : b.after = after := by rw [Buffer.after, sides_of_cut hcut]
  have hrest : after.drop passed.length = rest := by
    rw [h.append, List.drop_left]
  refine ⟨hmore, hmoved.1, ?_⟩
  rw [wordRight, hbefore, hafter, h.wordRight_eq, hrest]
  exact hmoved.2

end

/-- Wherever the cursor is, motions by words go strictly to the left or right and stop between two characters, at the
one place that the runs of characters there name; deleting a word takes away what the motion to the left passes over,
and nothing else. At the ends of the text nothing changes. -/
theorem words_passed (hcut : Text.splitAt? b.cursor b.text.toList = some (before, after)) :
    (0 < b.cursor → ∃ kept run blanks, StopsLeft before kept run blanks ∧
        (∀ kept' run' blanks', StopsLeft before kept' run' blanks' → kept' = kept) ∧
        Text.size kept < b.cursor ∧
        Text.splitAt? (Text.size kept) b.text.toList = some (kept, run ++ blanks ++ after) ∧
        b.wordLeft = (true, { b with cursor := Text.size kept, suffix := none, generation := b.generation + 1 }) ∧
        b.deleteWordBackward =
          (true, { b with
            text := String.ofList (kept ++ after)
            cursor := Text.size kept
            suffix := none
            generation := b.generation + 1 })) ∧
      (b.cursor = 0 → b.wordLeft = (false, b) ∧ b.deleteWordBackward = (false, b)) ∧
      (b.atEnd = false → ∃ passed rest, StopsRight after passed rest ∧
        (∀ passed' rest', StopsRight after passed' rest' → passed' = passed) ∧
        b.cursor < Text.size (before ++ passed) ∧
        Text.splitAt? (Text.size (before ++ passed)) b.text.toList = some (before ++ passed, rest) ∧
        b.wordRight =
          (true, { b with
            cursor := Text.size (before ++ passed)
            suffix := none
            generation := b.generation + 1 })) ∧
      (b.atEnd = true → b.wordRight = (false, b)) := by
  refine ⟨fun hpos => ?_, fun hzero => ?_, fun hmore => ?_, fun hend => ?_⟩
  · have hbefore := (cursor_pos_iff hcut).mp hpos
    obtain ⟨kept, run, blanks, hstops⟩ := Text.exists_stopsLeft before
    exact ⟨kept, run, blanks, hstops, fun _ _ _ => hstops.unique, wordLeft_of_stopsLeft hcut hstops hbefore⟩
  · have hbefore : before = [] := by
      by_contra hne
      exact absurd ((cursor_pos_iff hcut).mpr hne) (by omega)
    subst hbefore
    have hsides := sides_of_cut hcut
    have hword : b.cutWordLeft = ([], []) := by
      rw [cutWordLeft, Buffer.before, hsides]
      rfl
    have hafter : b.after = after := by rw [Buffer.after, hsides]
    refine ⟨?_, ?_⟩
    · rw [wordLeft, hword, hafter]
      exact edit_of_eq hsides.symm
    · rw [deleteWordBackward, hword, hafter]
      exact edit_of_eq hsides.symm
  · have hafter : after ≠ [] := by
      intro hnone
      rw [(atEnd_iff_of_cut hcut).mpr hnone] at hmore
      cases hmore
    obtain ⟨passed, rest, hstops⟩ := Text.exists_stopsRight hafter
    refine ⟨passed, rest, hstops, ?_, wordRight_of_stopsRight hcut hstops⟩
    intro passed' rest' hstops'
    rw [← hstops'.wordRight_eq, hstops.wordRight_eq]
  · have hafter := (atEnd_iff_of_cut hcut).mp hend
    subst hafter
    have hsides := sides_of_cut hcut
    rw [wordRight, Buffer.after, Buffer.before, hsides]
    refine edit_of_eq ?_
    rw [hsides]
    simp [Text.wordRight]

/-- Behind a call and two blanks: the closing bracket and the blanks are passed over. -/
theorem words_passed_call :
    let b : Buffer := { text := "foo.bar(baz)  ", cursor := 14, prompt := "> " }
    Text.splitAt? b.cursor b.text.toList = some ("foo.bar(baz)  ".toList, []) ∧
      b.wordLeft.2.cursor = 11 ∧ b.deleteWordBackward.2.text = "foo.bar(baz" := by
  intro b
  have hcut : Text.splitAt? b.cursor b.text.toList = some ("foo.bar(baz)  ".toList, []) := by decide
  have hblanks : EndsInRun isBlank "foo.bar(baz)  ".toList ("foo.bar(baz".toList ++ [')']) [' ', ' '] := by
    refine ⟨rfl, by simp [isBlank], ?_⟩
    rintro _ ⟨⟩
    decide
  have hbracket : EndsInRun isSymbolChar ("foo.bar(baz".toList ++ [')']) "foo.bar(baz".toList [')'] := by
    refine ⟨rfl, List.forall_mem_singleton.mpr (by decide), ?_⟩
    rintro _ ⟨⟩
    decide
  have hstops : StopsLeft "foo.bar(baz)  ".toList "foo.bar(baz".toList [')'] [' ', ' '] :=
    ⟨hblanks, .inr hbracket, nofun⟩
  obtain ⟨kept, run, blanks, -, hunique, -, -, hleft, hdelete⟩ := (words_passed hcut).1 (by decide)
  obtain rfl := hunique _ _ _ hstops
  refine ⟨hcut, ?_, ?_⟩
  · rw [hleft]
    decide
  · rw [hdelete]
    decide

end Console.Buffer

end ScriptRepl
