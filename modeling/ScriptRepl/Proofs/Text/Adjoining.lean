import ScriptRepl.Proofs.Text.EscapeSequence

/-! Texts that stand one behind the other. An escape sequence that the first one leaves unfinished can go on in the
second one; so the two can show less than each on its own does, but never more. -/
namespace ScriptRepl.Text

variable {front rest t : List Char} {p : Piece}

/-! ### Reading on -/

/-- A text that begins with a sequence is read as beginning with one at least as long. -/
theorem IsSequence.exists_leads {cs : List Char} (h : IsSequence t) (hstart : t <+: cs) :
    ∃ t' behind, cs = t' ++ behind ∧ t.length ≤ t'.length ∧ (Piece.code t').Leads behind := by
  obtain ⟨n, hn, hle⟩ := lengthPred?_of_prefix h hstart
  obtain ⟨t', ht', ⟨behind, rfl⟩, hlength⟩ := sequence_of_lengthPred? hn
  refine ⟨t', behind, rfl, by omega, ht', fun t'' ht'' hstart'' => ?_⟩
  obtain ⟨m, hm, hle'⟩ := lengthPred?_of_prefix ht'' hstart''
  rw [hn, Option.some.injEq] at hm
  omega

theorem pieces_append_of_not_mem (h : '\x1b' ∉ front) (rest : List Char) :
    pieces (front ++ rest) = front.map .shown ++ pieces rest := by
  induction front with
  | nil => rfl
  | cons c front ih =>
      rw [List.mem_cons, not_or] at h
      obtain ⟨hc, hfront⟩ := h
      rw [List.cons_append, pieces_cons_of_ne (Ne.symm hc), ih hfront, List.map_cons, List.cons_append]

theorem pieces_of_not_mem (h : '\x1b' ∉ front) : pieces front = front.map .shown := by
  have hread := pieces_append_of_not_mem h []
  rwa [List.append_nil, pieces, List.append_nil] at hread

theorem Piece.Leads.exists_cons (h : p.Leads rest) : ∃ c cs, p.text = c :: cs := by
  cases p with
  | code t =>
      obtain ⟨c, cs, ht⟩ := h.1.exists_cons
      exact ⟨_, _, ht⟩
  | shown c => exact ⟨c, [], rfl⟩

/-- With more behind it a text begins with the same piece, or with a sequence that goes on in what is behind. -/
theorem Piece.Leads.append_or_across (h : p.Leads front) (rest : List Char) :
    p.Leads (front ++ rest) ∨ ∃ inside behind, inside ≠ [] ∧ rest = inside ++ behind ∧
      (Piece.code (p.text ++ front ++ inside)).Leads behind := by
  by_cases hlonger : ∃ t, IsSequence t ∧ t <+: p.text ++ front ++ rest ∧ (p.text ++ front).length < t.length
  · obtain ⟨t, ht, hstart, hlength⟩ := hlonger
    obtain ⟨t', behind, htext, hle, hleads⟩ := ht.exists_leads hstart
    rcases List.append_eq_append_iff.mp htext with ⟨inside, rfl, hrest⟩ | ⟨more, hmore, -⟩
    · refine .inr ⟨inside, behind, ?_, hrest, hleads⟩
      rintro rfl
      rw [List.append_nil] at hle
      omega
    · have hshort : t'.length ≤ (p.text ++ front).length := by
        rw [hmore, List.length_append]
        exact Nat.le_add_right _ _
      omega
  · have hwithin : ∀ t, IsSequence t → t <+: p.text ++ front ++ rest → t <+: p.text ++ front := by
      intro t ht hstart
      refine List.prefix_of_prefix_length_le hstart (List.prefix_append _ rest) (not_lt.mp fun hlength => ?_)
      exact hlonger ⟨t, ht, hstart, hlength⟩
    left
    cases p with
    | code t =>
        refine ⟨h.1, fun t' ht' hstart => h.2 t' ht' (hwithin t' ht' ?_)⟩
        rw [List.append_assoc]
        exact hstart
    | shown c => exact fun t' ht' hstart => h t' ht' (hwithin t' ht' hstart)

/-- Before a further text the pieces are read as they are up to a sequence that goes on in that text; `inside` is what
it takes of it, `behind` what it leaves. -/
structure Across (ps : List Piece) (rest : List Char) (before : List Piece) (front inside behind : List Char) :
    Prop where
  kept : before <+: ps
  isSequence : IsSequence ('\x1b' :: (front ++ inside))
  ne_nil : inside ≠ []
  rest_eq : rest = inside ++ behind
  pieces_eq : pieces (ps.flatMap Piece.text ++ rest) = before ++ .code ('\x1b' :: (front ++ inside)) :: pieces behind

theorem AsRead.append_or_across {ps : List Piece} (h : AsRead ps) (rest : List Char) :
    pieces (ps.flatMap Piece.text ++ rest) = ps ++ pieces rest ∨
      ∃ before front inside behind, Across ps rest before front inside behind := by
  induction ps with
  | nil => exact .inl rfl
  | cons p ps ih =>
      obtain ⟨hleads, hps⟩ := asRead_cons_iff.mp h
      rcases hleads.append_or_across rest with hsame | ⟨inside, behind, hne, hrest, hacross⟩
      · have hread := pieces_of_leads hsame
        rw [List.flatMap_cons, List.append_assoc]
        rcases ih hps with hall | ⟨before, front, inside, behind, hacross⟩
        · exact .inl (by rw [hread, hall, List.cons_append])
        · refine .inr ⟨p :: before, front, inside, behind, ?_, hacross.isSequence, hacross.ne_nil, hacross.rest_eq,
            ?_⟩
          · exact List.cons_prefix_cons.mpr ⟨rfl, hacross.kept⟩
          · rw [List.flatMap_cons, List.append_assoc, hread, hacross.pieces_eq, List.cons_append]
      · obtain ⟨c, cs, hp⟩ := hleads.exists_cons
        obtain ⟨d, more, hstart⟩ := hacross.1.exists_cons
        obtain rfl : c = '\x1b' := by
          rw [hp] at hstart
          exact (List.cons.inj hstart).1
        have hread := pieces_of_leads hacross
        rw [hp, List.cons_append, List.cons_append] at hacross hread
        refine .inr ⟨[], cs ++ ps.flatMap Piece.text, inside, behind, List.nil_prefix, hacross.1, hne, hrest, ?_⟩
        rw [List.flatMap_cons, hp, hrest, List.nil_append, ← hread]
        simp [Piece.text]

/-- No sequence ends with a space. -/
theorem IsSequence.exists_getLast? (h : IsSequence t) : ∃ c, t.getLast? = some c ∧ c ≠ ' ' := by
  cases h with
  | @control ps is f hps his hf =>
      refine ⟨f, by simp [List.getLast?_cons], ?_⟩
      rintro rfl
      exact absurd hf (by decide)
  | @command body ending hbody hending =>
      rcases hending with rfl | rfl
      · exact ⟨'\x07', by simp [List.getLast?_cons], by decide⟩
      · exact ⟨'\\', by simp [List.getLast?_cons], by decide⟩
  | @single c hc =>
      refine ⟨c, rfl, ?_⟩
      rintro rfl
      exact absurd hc (by decide)

theorem pieces_append_spaces (cs : List Char) (n : Nat) :
    pieces (cs ++ List.replicate n ' ') = pieces cs ++ pieces (List.replicate n ' ') := by
  have h := (asRead_pieces cs).append_or_across (List.replicate n ' ')
  rw [pieces_flatMap_text] at h
  rcases h with hall | ⟨before, front, inside, behind, hacross⟩
  · exact hall
  · obtain ⟨c, hlast, hc⟩ := hacross.isSequence.exists_getLast?
    rw [← List.cons_append, List.getLast?_append_of_ne_nil _ hacross.ne_nil] at hlast
    have hmem : c ∈ List.replicate n ' ' := by
      rw [hacross.rest_eq]
      exact List.mem_append_left behind (List.mem_of_getLast? hlast)
    exact absurd (List.eq_of_mem_replicate hmem) hc

/-! ### What shows -/

/-- What ends a sequence hides nothing behind it when it is read on its own. -/
theorem IsSequence.visible_sublist {inside : List Char} (h : IsSequence ('\x1b' :: (front ++ inside)))
    (rest : List Char) : (visible rest).Sublist (visible (inside ++ rest)) := by
  induction inside generalizing front with
  | nil => exact .refl _
  | cons c inside ih =>
      by_cases hc : c = '\x1b'
      · subst hc
        have hread : pieces ('\x1b' :: '\\' :: rest) = .code ['\x1b', '\\'] :: pieces rest := by
          rw [pieces]
          rfl
        rw [h.eq_of_escape_inside, visible, visible, List.cons_append, List.cons_append, List.nil_append, hread]
        exact .refl _
      · have hread : visible (c :: inside ++ rest) = c :: visible (inside ++ rest) := by
          rw [visible, List.cons_append, pieces_cons_of_ne hc]
          rfl
        have hlonger : IsSequence ('\x1b' :: (front ++ [c] ++ inside)) := by
          rw [← List.append_cons]
          exact h
        rw [hread]
        exact (ih hlonger).cons c

theorem Across.visible_eq {ps before : List Piece} {inside behind : List Char}
    (h : Across ps rest before front inside behind) :
    visible (ps.flatMap Piece.text ++ rest) = before.filterMap Piece.shown? ++ visible behind := by
  rw [visible, h.pieces_eq, List.filterMap_append, List.filterMap_cons_none rfl, visible]

theorem visible_append_sublist (cs rest : List Char) :
    (visible (cs ++ rest)).Sublist (visible cs ++ visible rest) := by
  have h := (asRead_pieces cs).append_or_across rest
  rw [pieces_flatMap_text] at h
  rcases h with hall | ⟨before, front, inside, behind, hacross⟩
  · rw [visible, hall, List.filterMap_append]
    exact .refl _
  · have hvisible := hacross.visible_eq
    rw [pieces_flatMap_text] at hvisible
    rw [hvisible, hacross.rest_eq]
    exact (hacross.kept.sublist.filterMap _).append (hacross.isSequence.visible_sublist behind)

/-! ### Columns -/

theorem columnsOf_le_of_sublist {cs ds : List Char} (h : cs.Sublist ds) : columnsOf cs ≤ columnsOf ds := by
  induction h with
  | slnil => exact Nat.le_refl _
  | cons c _ ih => exact Nat.le_trans ih (Nat.le_add_left _ _)
  | cons_cons c _ ih => exact Nat.add_le_add_left ih _

theorem displayWidth_append_le (s s' : String) : displayWidth (s ++ s') ≤ displayWidth s + displayWidth s' := by
  rw [displayWidth, String.toList_append, displayWidth, displayWidth, ← columnsOf_append]
  exact columnsOf_le_of_sublist (visible_append_sublist _ _)

/-- A sequence that goes on behind the text takes at least the space that stands there. -/
theorem Across.columnsOf_lt {ps before : List Piece} {inside behind : List Char}
    (h : Across ps (' ' :: rest) before front inside behind) :
    columnsOf (visible (ps.flatMap Piece.text ++ ' ' :: rest)) <
      columnsOf (ps.filterMap Piece.shown?) + columnsOf (visible (' ' :: rest)) := by
  obtain ⟨c, inside, rfl⟩ := List.exists_cons_of_ne_nil h.ne_nil
  obtain ⟨rfl, hrest⟩ := List.cons.inj h.rest_eq
  have hspace : visible (' ' :: rest) = ' ' :: visible rest := by
    rw [visible, pieces_cons_of_ne (by decide)]
    rfl
  have hsequence : IsSequence ('\x1b' :: (front ++ [' '] ++ inside)) := by
    rw [← List.append_cons]
    exact h.isSequence
  have hbehind : columnsOf (visible behind) ≤ columnsOf (visible rest) := by
    rw [hrest]
    exact columnsOf_le_of_sublist (hsequence.visible_sublist behind)
  have hbefore := columnsOf_le_of_sublist (h.kept.sublist.filterMap Piece.shown?)
  have hone : columns ' ' = 1 := by decide
  rw [h.visible_eq, columnsOf_append, hspace, columnsOf, hone]
  omega

/-- If two texts, the second one behind a space, take as many columns together as each on its own, they are read one by
one. -/
theorem pieces_append_of_le {cs : List Char} (hrest : ∀ c ∈ rest.head?, c = ' ')
    (h : columnsOf (visible cs) + columnsOf (visible rest) ≤ columnsOf (visible (cs ++ rest))) :
    pieces (cs ++ rest) = pieces cs ++ pieces rest := by
  cases rest with
  | nil => rw [List.append_nil, pieces, List.append_nil]
  | cons c rest =>
      obtain rfl : c = ' ' := hrest c rfl
      have hread := (asRead_pieces cs).append_or_across (' ' :: rest)
      rcases hread with hall | ⟨before, front, inside, behind, hacross⟩
      · rwa [pieces_flatMap_text] at hall
      · have hless := hacross.columnsOf_lt
        rw [pieces_flatMap_text] at hless
        exact absurd hless (Nat.not_lt.mpr h)

end ScriptRepl.Text
