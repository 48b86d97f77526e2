import ScriptRepl.Proofs.Number.Radix
import ScriptRepl.Proofs.Syntax.Unclosed

/-! What a text in quotes stands for. It ends at the first quote outside of an escape, which no raw line end may come
before, and its value is that of its units: characters that stand for themselves, and escapes. The number of a character
has four hexadecimal digits; the reader also takes a plus sign for the first of them. -/
namespace ScriptRepl.Syntax.Lexer

open Text (Cursor isLineEnd size)

/-! ### Units -/

/-- Four hexadecimal digits, and the character that has their number. -/
def IsHex (ds : List Char) (c : Char) : Prop :=
  ∃ ns : List Nat, ds.map (Number.digitValue? 16) = ns.map some ∧ ns.length = 4 ∧ Number.valueOf 16 ns = c.toNat

/-- What is read as such a number: a plus sign counts as a zero in front. -/
def IsHexRead (ds : List Char) (c : Char) : Prop :=
  IsHex ds c ∨ ∃ ds', ds = '+' :: ds' ∧ IsHex ('0' :: ds') c

/-- The letters that stand for control characters behind a backslash. -/
def controls : List (Char × Char) :=
  [('n', '\n'), ('t', '\t'), ('r', '\r'), ('b', '\x08'), ('f', '\x0c'), ('v', '\x0b'), ('0', '\x00')]

/-- How an escape goes on behind its backslash, in front of `behind`, and the character that it stands for, if it stands
for one. -/
inductive IsEscape (hex : List Char → Char → Prop) (behind : List Char) : List Char → Option Char → Prop
  | control {e c : Char} (h : (e, c) ∈ controls) : IsEscape hex behind [e] (some c)
  | number {ds : List Char} {c : Char} (h : hex ds c) : IsEscape hex behind ('u' :: ds) (some c)
  | lineEnd {c : Char} (h : c ∈ ['\n', '\u2028', '\u2029']) : IsEscape hex behind [c] none
  | returnLine : IsEscape hex behind ['\r', '\n'] none
  | returnAlone (h : behind.head? ≠ some '\n') : IsEscape hex behind ['\r'] none
  | other {c : Char} (hcontrol : c ∉ controls.map Prod.fst) (hline : isLineEnd c = false)
      (hnumber : c = 'u' → ∀ ds more d, behind = ds ++ more → ¬hex ds d) : IsEscape hex behind [c] (some c)

/-- The units of a text in quotes, in front of `behind`, and the value of the text. -/
inductive Spells (hex : List Char → Char → Prop) (quote : Char) (behind : List Char) : List Char → List Char → Prop
  | nil : Spells hex quote behind [] []
  | plain {c : Char} {more value : List Char} (hc : c ∉ [quote, '\\', '\n', '\r'])
      (hmore : Spells hex quote behind more value) : Spells hex quote behind (c :: more) (c :: value)
  | escape {word more value : List Char} {c? : Option Char} (hword : IsEscape hex (more ++ behind) word c?)
      (hmore : Spells hex quote behind more value) :
      Spells hex quote behind ('\\' :: (word ++ more)) (c?.toList ++ value)

/-- The characters of a text that are outside of its escapes, none of which is cut off. -/
inductive Bare : List Char → List Char → Prop
  | nil : Bare [] []
  | plain {c : Char} {cs bare : List Char} (hc : c ≠ '\\') (hcs : Bare cs bare) : Bare (c :: cs) (c :: bare)
  | returnLine {cs bare : List Char} (hcs : Bare cs bare) : Bare ('\\' :: '\r' :: '\n' :: cs) bare
  | escaped {c : Char} {cs bare : List Char} (hc : c = '\r' → cs.head? ≠ some '\n') (hcs : Bare cs bare) :
      Bare ('\\' :: c :: cs) bare

/-- The text comes to a quote outside of an escape, and to no raw line end before. -/
def Closes (quote : Char) (cs : List Char) : Prop :=
  ∃ passed bare rest, cs = passed ++ quote :: rest ∧ Bare passed bare ∧ '\n' ∉ bare ∧ '\r' ∉ bare

/-- Behind a quote, a text with this value ends at the first quote outside of an escape. -/
def Decodes (hex : List Char → Char → Prop) (quote : Char) (after : Cursor) (value : List Char) (stop : Cursor) :
    Prop :=
  ∃ passed bare, after.Passes (passed ++ [quote]) stop ∧ Bare passed bare ∧ (∀ d ∈ bare, d ∉ [quote, '\n', '\r']) ∧
    Spells hex quote (quote :: stop.rest) passed value

variable {hex : List Char → Char → Prop} {quote c d : Char} {behind cs ds word value : List Char} {c? : Option Char}
  {after place stop : Cursor}

/-! ### Numbers of characters -/

theorem IsHex.length (h : IsHex ds c) : ds.length = 4 := by
  obtain ⟨ns, hdigits, hlength, -⟩ := h
  rw [← List.length_map (Number.digitValue? 16), hdigits, List.length_map, hlength]

theorem IsHex.digitValue? (h : IsHex ds c) (hd : d ∈ ds) : Number.digitValue? 16 d ≠ none := by
  obtain ⟨ns, hdigits, -⟩ := h
  have hmem := List.mem_map_of_mem (f := Number.digitValue? 16) hd
  rw [hdigits] at hmem
  obtain ⟨n, -, hn⟩ := List.mem_map.mp hmem
  rw [← hn]
  exact Option.some_ne_none n

theorem IsHexRead.length (h : IsHexRead ds c) : ds.length = 4 := by
  rcases h with h | ⟨ds', rfl, h⟩
  · exact h.length
  · exact h.length

/-- Nothing that ends a text or an escape is in a number. -/
theorem IsHexRead.not_mem (h : IsHexRead ds c) (hd : Number.digitValue? 16 d = none) (hplus : d ≠ '+') : d ∉ ds := by
  intro hmem
  rcases h with h | ⟨ds', rfl, h⟩
  · exact h.digitValue? hmem hd
  · exact h.digitValue? (List.mem_cons_of_mem _ ((List.mem_cons.mp hmem).resolve_left hplus)) hd

theorem not_isHex_plus (ds : List Char) : ¬IsHex ('+' :: ds) c :=
  fun h => h.digitValue? List.mem_cons_self (by decide)

/-- The digits are read one by one. -/
theorem foldl_digits_iff {a n : Nat} :
    ds.foldl (fun n? c => n?.bind fun n => (Number.digitValue? 16 c).map (16 * n + ·)) (some a) = some n ↔
      ∃ ns : List Nat, ds.map (Number.digitValue? 16) = ns.map some ∧ ns.foldl (fun n d => 16 * n + d) a = n := by
  induction ds generalizing a with
  | nil =>
      refine ⟨fun h => ⟨[], rfl, Option.some.inj h⟩, fun ⟨ns, hdigits, hvalue⟩ => ?_⟩
      rw [List.map_nil, eq_comm, List.map_eq_nil_iff] at hdigits
      rw [hdigits] at hvalue
      exact congrArg some hvalue
  | cons d ds ih =>
      rw [List.foldl_cons, Option.bind_some]
      cases hd : Number.digitValue? 16 d with
      | none =>
          rw [Option.map_none, hexDigits_none]
          refine iff_of_false nofun ?_
          rintro ⟨ns, hdigits, -⟩
          cases ns with
          | nil => cases hdigits
          | cons n ns =>
              rw [List.map_cons, List.map_cons, hd] at hdigits
              cases (List.cons.inj hdigits).1
      | some k =>
          rw [Option.map_some, ih]
          refine ⟨fun ⟨ns, hdigits, hvalue⟩ => ⟨k :: ns, ?_, hvalue⟩, fun ⟨ns, hdigits, hvalue⟩ => ?_⟩
          · rw [List.map_cons, List.map_cons, hd, hdigits]
          · cases ns with
            | nil => cases hdigits
            | cons m ns =>
                rw [List.map_cons, List.map_cons, hd] at hdigits
                obtain ⟨hm, hrest⟩ := List.cons.inj hdigits
                cases hm
                exact ⟨ns, hrest, hvalue⟩

theorem hexChar?_plus (ds : List Char) : hexChar? ('+' :: ds) = hexChar? ('0' :: ds) := rfl

theorem hexChar?_eq_some_iff_of_ne (hplus : ∀ ds', ds ≠ '+' :: ds') : hexChar? ds = some c ↔ IsHex ds c := by
  unfold hexChar?
  dsimp only
  split
  · rename_i n hn
    split at hn
    · exact absurd rfl (hplus _)
    obtain ⟨ns, hns, hvalue⟩ := foldl_digits_iff.mp hn
    have hlength : ds.length = ns.length := by
      rw [← List.length_map (Number.digitValue? 16), hns, List.length_map]
    refine ⟨fun h => ⟨ns, hns, ?_⟩, fun ⟨ms, hms, hfour, hvalue'⟩ => ?_⟩
    · split at h
      · rename_i hvalid
        cases h
        exact ⟨hlength ▸ hvalid.1, by rw [Number.valueOf, hvalue, Char.toNat_ofNat, if_pos hvalid.2]⟩
      · cases h
    · obtain rfl : ns = ms := List.map_injective_iff.mpr (Option.some_injective _) (hns.symm.trans hms)
      rw [Number.valueOf, hvalue] at hvalue'
      rw [hvalue', if_pos ⟨hlength.trans hfour, c.valid⟩, Char.ofNat_toNat]
  · rename_i hnone
    split at hnone
    · exact absurd rfl (hplus _)
    refine iff_of_false (Option.some_ne_none c).symm ?_
    rintro ⟨ns, hns, -, hvalue⟩
    rw [foldl_digits_iff.mpr ⟨ns, hns, hvalue⟩] at hnone
    cases hnone

theorem hexChar?_eq_some_iff : hexChar? ds = some c ↔ IsHexRead ds c := by
  by_cases hplus : ∃ ds', ds = '+' :: ds'
  · obtain ⟨ds', rfl⟩ := hplus
    rw [hexChar?_plus, hexChar?_eq_some_iff_of_ne (by simp)]
    refine ⟨fun h => .inr ⟨ds', rfl, h⟩, ?_⟩
    rintro (h | ⟨ds'', heq, h⟩)
    · exact absurd h (not_isHex_plus ds')
    · cases heq
      exact h
  · rw [hexChar?_eq_some_iff_of_ne fun ds' heq => hplus ⟨ds', heq⟩]
    refine ⟨.inl, ?_⟩
    rintro (h | ⟨ds', heq, -⟩)
    · exact h
    · exact absurd ⟨ds', heq⟩ hplus

/-! ### Escapes -/

theorem escape_of_isEscape (h : IsEscape IsHexRead behind word c?) (n : Nat) :
    escape ⟨n, word ++ behind⟩ = (c?, ⟨n + size word, behind⟩) := by
  cases h with
  | control h =>
      simp only [controls, List.mem_cons, Prod.mk.injEq, List.not_mem_nil, or_false] at h
      rcases h with ⟨rfl, rfl⟩ | ⟨rfl, rfl⟩ | ⟨rfl, rfl⟩ | ⟨rfl, rfl⟩ | ⟨rfl, rfl⟩ | ⟨rfl, rfl⟩ | ⟨rfl, rfl⟩ <;> rfl
  | @number ds c h =>
      have htake : (ds ++ behind).take 4 = ds := by rw [← h.length, List.take_left]
      have hdrop : (ds ++ behind).drop 4 = behind := by rw [← h.length, List.drop_left]
      have hlength : 4 ≤ (ds ++ behind).length := by
        rw [List.length_append, h.length]
        exact Nat.le_add_right 4 _
      have hskip := Cursor.passes_skip (a := ⟨n + 'u'.utf8Size, ds ++ behind⟩) hlength
      have hread : hexChar? ((ds ++ behind).take 4) = some c := by rw [htake, hexChar?_eq_some_iff.mpr h]
      have hstop : (Cursor.skip 4 ⟨n + 'u'.utf8Size, ds ++ behind⟩) = ⟨n + size ('u' :: ds), behind⟩ := by
        rw [Cursor.mk.injEq, hskip.offset, Cursor.rest_skip, htake, hdrop, size, Nat.add_assoc]
        exact ⟨rfl, rfl⟩
      exact (escape_hex hread n).trans (congrArg (some c, ·) hstop)
  | lineEnd h =>
      simp only [List.mem_cons, List.not_mem_nil, or_false] at h
      rcases h with rfl | rfl | rfl <;> rfl
  | returnLine => exact escape_returnLine n behind
  | returnAlone h => exact escape_return n behind h
  | @other c hcontrol hline hnumber =>
      have hother : escape ⟨n, c :: behind⟩ = (some c, ⟨n + c.utf8Size, behind⟩) := by
        by_cases hu : c = 'u'
        · subst hu
          refine escape_noHex (Option.eq_none_iff_forall_ne_some.mpr fun d hd => ?_) n
          exact hnumber rfl _ _ d (List.take_append_drop 4 behind).symm (hexChar?_eq_some_iff.mp hd)
        · unfold escape
          dsimp only [Cursor.next?]
          split
          all_goals first
            | exact absurd (by decide) hcontrol
            | exact absurd rfl hu
            | cases hline
            | rw [if_neg (by rw [hline]; decide)]
      exact hother

theorem exists_isEscape (c : Char) (cs : List Char) :
    ∃ word behind c?, c :: cs = word ++ behind ∧ IsEscape IsHexRead behind word c? := by
  by_cases hcontrol : c ∈ controls.map Prod.fst
  · obtain ⟨⟨e, d⟩, he, rfl⟩ := List.mem_map.mp hcontrol
    exact ⟨[e], cs, some d, rfl, .control he⟩
  by_cases hreturn : c = '\r'
  · subst hreturn
    by_cases hfeed : cs.head? = some '\n'
    · obtain ⟨ds, rfl⟩ := List.head?_eq_some_iff.mp hfeed
      exact ⟨['\r', '\n'], ds, none, rfl, .returnLine⟩
    · exact ⟨['\r'], cs, none, rfl, .returnAlone hfeed⟩
  by_cases hline : c ∈ ['\n', '\u2028', '\u2029']
  · exact ⟨[c], cs, none, rfl, .lineEnd hline⟩
  have hends : isLineEnd c = false := by
    simp only [List.mem_cons, List.not_mem_nil, or_false, not_or] at hline
    simp [isLineEnd, hreturn, hline]
  by_cases hnumber : c = 'u' ∧ ∃ ds more d, cs = ds ++ more ∧ IsHexRead ds d
  · obtain ⟨rfl, ds, more, d, rfl, hd⟩ := hnumber
    exact ⟨'u' :: ds, more, some d, rfl, .number hd⟩
  · refine ⟨[c], cs, some c, rfl, .other hcontrol hends fun hu ds more d hcs hd => ?_⟩
    exact hnumber ⟨hu, ds, more, d, hcs, hd⟩

/-! ### Texts -/

theorem plain_of_quote (hquote : quote ∈ ['\'', '"']) : quote ≠ '\\' ∧ ¬(quote = '\n' ∨ quote = '\r') := by
  simp only [List.mem_cons, List.not_mem_nil, or_false] at hquote
  rcases hquote with rfl | rfl <;> decide

/-- What is read is spelled by its units. -/
theorem spells_of_quoted (h : quoted quote place = .ok (value, stop)) :
    ∃ passed, place.Passes (passed ++ [quote]) stop ∧ Spells IsHexRead quote (quote :: stop.rest) passed value := by
  fun_induction quoted quote place generalizing value stop with
  | case1 => cases h
  | case2 => cases h
  | case3 place after hn hline =>
      cases h
      exact ⟨[], Cursor.passes_of_next? hn, .nil⟩
  | case4 place after value' stop' hrest hn hline hquote ih =>
      cases h
      obtain ⟨passed, hpasses, hspells⟩ := ih hrest
      obtain ⟨n, _ | ⟨c, cs⟩⟩ := after
      · obtain ⟨hnil, -⟩ := hpasses
        cases passed <;> cases hnil
      obtain ⟨word, behind, c?, hcs, hescape⟩ := exists_isEscape c cs
      rw [hcs, escape_of_isEscape hescape] at hpasses ⊢
      have hbehind : behind = passed ++ quote :: stop'.rest := by
        rw [← List.singleton_append, ← List.append_assoc]
        exact hpasses.rest
      rw [hbehind] at hescape
      have hword : Cursor.Passes ⟨n, c :: cs⟩ word ⟨n + size word, behind⟩ := ⟨hcs, rfl⟩
      refine ⟨'\\' :: (word ++ passed), ?_, .escape hescape hspells⟩
      have hall := (Cursor.passes_of_next? hn).trans (hword.trans hpasses)
      rwa [List.singleton_append, ← List.append_assoc] at hall
  | case5 => cases h
  | case6 place c after hn hline hquote hescape value' stop' hrest ih =>
      cases h
      obtain ⟨passed, hpasses, hspells⟩ := ih hrest
      refine ⟨c :: passed, (Cursor.passes_of_next? hn).trans hpasses, .plain ?_ hspells⟩
      simp only [List.mem_cons, List.not_mem_nil, or_false, not_or]
      exact ⟨hquote, hescape, not_or.mp hline⟩
  | case7 => cases h

theorem quoted_of_spells (hquote : quote ∈ ['\'', '"']) {passed rest : List Char}
    (h : Spells IsHexRead quote (quote :: rest) passed value) (n : Nat) :
    quoted quote ⟨n, passed ++ quote :: rest⟩ = .ok (value, ⟨n + size passed + quote.utf8Size, rest⟩) := by
  have hplain := plain_of_quote hquote
  induction h generalizing n with
  | nil =>
      rw [quoted]
      simp only [List.nil_append, Cursor.next?, if_neg hplain.2, ↓reduceIte]
      rfl
  | @plain c more value hc hmore ih =>
      simp only [List.mem_cons, List.not_mem_nil, or_false, not_or] at hc
      rw [List.cons_append, quoted_char rfl (not_or.mpr hc.2.2) hc.1 hc.2.1, ih]
      simp only [Except.map, size, Nat.add_assoc]
  | @escape word more value c? hword hmore ih =>
      have hread := escape_of_isEscape hword (n + '\\'.utf8Size)
      rw [List.cons_append, List.append_assoc, quoted_escape rfl hplain.1, hread, ih]
      simp only [Except.map, size, Text.size_append, Nat.add_assoc]

/-! ### Where a text ends -/

theorem Bare.append (hds : '\\' ∉ ds) {bare : List Char} (h : Bare cs bare) : Bare (ds ++ cs) (ds ++ bare) := by
  induction ds with
  | nil => exact h
  | cons d ds ih =>
      rw [List.mem_cons, not_or] at hds
      exact .plain (Ne.symm hds.1) (ih hds.2)

theorem Bare.of_append (hds : '\\' ∉ ds) {bare : List Char} (h : Bare (ds ++ cs) bare) :
    ∃ bare', Bare cs bare' ∧ bare = ds ++ bare' := by
  induction ds generalizing bare with
  | nil => exact ⟨bare, h, rfl⟩
  | cons d ds ih =>
      rw [List.mem_cons, not_or] at hds
      rw [List.cons_append] at h
      generalize htail : ds ++ cs = tail at h
      cases h with
      | plain hc hcs =>
          obtain ⟨bare', hbare, rfl⟩ := ih hds.2 (htail ▸ hcs)
          exact ⟨bare', hbare, rfl⟩
      | returnLine hcs => exact absurd rfl hds.1
      | escaped hc hcs => exact absurd rfl hds.1

theorem IsHexRead.not_backslash (h : IsHexRead ds c) : '\\' ∉ ds :=
  h.not_mem (by decide) (by decide)

/-- No quote is in a number. -/
theorem IsHexRead.not_quote (hquote : quote ∈ ['\'', '"']) (h : IsHexRead ds c) : quote ∉ ds := by
  simp only [List.mem_cons, List.not_mem_nil, or_false] at hquote
  rcases hquote with rfl | rfl
  · exact h.not_mem (by decide) (by decide)
  · exact h.not_mem (by decide) (by decide)

/-- An escape in front of a text leaves nothing bare but the digits of a number. -/
theorem IsEscape.bare {rest more bare : List Char} (hquote : quote ∈ ['\'', '"'])
    (h : IsEscape IsHexRead (more ++ quote :: rest) word c?) (hmore : Bare more bare) :
    ∃ ds, Bare ('\\' :: (word ++ more)) (ds ++ bare) ∧ ∀ d ∈ ds, d ∉ [quote, '\n', '\r'] := by
  have hone {c : Char} (hc : c ≠ '\r') : ∃ ds, Bare ('\\' :: ([c] ++ more)) (ds ++ bare) ∧
      ∀ d ∈ ds, d ∉ [quote, '\n', '\r'] :=
    ⟨[], .escaped (fun heq => absurd heq hc) hmore, nofun⟩
  cases h with
  | control h =>
      refine hone ?_
      rintro rfl
      revert h
      simp [controls]
  | @number ds c h =>
      refine ⟨ds, .escaped nofun (hmore.append h.not_backslash), fun d hd hother => ?_⟩
      simp only [List.mem_cons, List.not_mem_nil, or_false] at hother
      rcases hother with rfl | rfl | rfl
      · exact h.not_quote hquote hd
      · exact h.not_mem (by decide) (by decide) hd
      · exact h.not_mem (by decide) (by decide) hd
  | lineEnd h =>
      refine hone ?_
      rintro rfl
      revert h
      decide
  | returnLine => exact ⟨[], .returnLine hmore, nofun⟩
  | returnAlone h =>
      refine ⟨[], .escaped (fun _ (hfeed : more.head? = _) => h ?_) hmore, nofun⟩
      rw [List.head?_append, hfeed]
      rfl
  | other hcontrol hline hnumber =>
      refine hone ?_
      rintro rfl
      cases hline

/-- Outside of the escapes there is neither the quote nor a line end. -/
theorem Spells.exists_bare (hquote : quote ∈ ['\'', '"']) {passed rest : List Char}
    (h : Spells IsHexRead quote (quote :: rest) passed value) :
    ∃ bare, Bare passed bare ∧ ∀ d ∈ bare, d ∉ [quote, '\n', '\r'] := by
  induction h with
  | nil => exact ⟨[], .nil, nofun⟩
  | @plain c more value hc hmore ih =>
      obtain ⟨bare, hbare, hothers⟩ := ih
      simp only [List.mem_cons, List.not_mem_nil, or_false, not_or] at hc
      refine ⟨c :: bare, .plain hc.2.1 hbare, List.forall_mem_cons.mpr ⟨?_, hothers⟩⟩
      simp [hc.1, hc.2.2]
  | escape hword hmore ih =>
      obtain ⟨bare, hbare, hothers⟩ := ih
      obtain ⟨ds, hword, hds⟩ := hword.bare hquote hbare
      exact ⟨ds ++ bare, hword, List.forall_mem_append.mpr ⟨hds, hothers⟩⟩

/-- A backslash takes a character along, or a whole line end. -/
theorem Closes.of_backslash (hquote : quote ∈ ['\'', '"']) (h : Closes quote ('\\' :: cs)) :
    (∃ rest, cs = '\r' :: '\n' :: rest ∧ Closes quote rest) ∨
      ∃ d rest, cs = d :: rest ∧ (d = '\r' → rest.head? ≠ some '\n') ∧ Closes quote rest := by
  obtain ⟨hbackslash, hline⟩ := plain_of_quote hquote
  obtain ⟨passed, bare, rest, hpassed, hbare, hfeed, hreturn⟩ := h
  cases hbare with
  | nil => exact absurd (List.cons.inj hpassed).1.symm hbackslash
  | plain hc _ => exact absurd (List.cons.inj hpassed).1.symm hc
  | @returnLine cs' _ hcs => exact .inl ⟨_, (List.cons.inj hpassed).2, cs', bare, rest, rfl, hcs, hfeed, hreturn⟩
  | @escaped d cs' _ hd hcs =>
      refine .inr ⟨d, _, (List.cons.inj hpassed).2, fun hreturned => ?_, cs', bare, rest, rfl, hcs, hfeed, hreturn⟩
      -- the quote itself is no line feed
      cases cs' with
      | nil => exact fun hhead => hline (.inl (Option.some.inj hhead))
      | cons e cs' => exact hd hreturned

theorem Closes.of_escaped (hquote : quote ∈ ['\'', '"']) (hc : c = '\r' → cs.head? ≠ some '\n')
    (h : Closes quote ('\\' :: c :: cs)) : Closes quote cs := by
  rcases h.of_backslash hquote with ⟨rest, hrest, -⟩ | ⟨d, rest, hrest, -, hcloses⟩
  · cases hrest
    exact absurd rfl (hc rfl)
  · cases hrest
    exact hcloses

theorem Closes.of_returnLine (hquote : quote ∈ ['\'', '"']) (h : Closes quote ('\\' :: '\r' :: '\n' :: cs)) :
    Closes quote cs := by
  rcases h.of_backslash hquote with ⟨rest, hrest, hcloses⟩ | ⟨d, rest, hrest, hd, -⟩
  · cases hrest
    exact hcloses
  · cases hrest
    exact absurd rfl (hd rfl)

/-- Characters that neither end a text nor begin an escape can be passed over. -/
theorem Closes.of_append (hbackslash : '\\' ∉ ds) (hends : quote ∉ ds) (h : Closes quote (ds ++ cs)) :
    Closes quote cs := by
  obtain ⟨passed, bare, rest, hpassed, hbare, hfeed, hreturn⟩ := h
  rcases List.append_eq_append_iff.mp hpassed with ⟨more, rfl, hmore⟩ | ⟨more, hds, hmore⟩
  · obtain ⟨bare', hbare', rfl⟩ := hbare.of_append hbackslash
    rw [List.mem_append, not_or] at hfeed hreturn
    exact ⟨more, bare', rest, hmore, hbare', hfeed.2, hreturn.2⟩
  · cases more with
    | nil => exact ⟨[], [], rest, hmore.symm, .nil, List.not_mem_nil, List.not_mem_nil⟩
    | cons d more =>
        obtain ⟨rfl, -⟩ := List.cons.inj hmore
        exact absurd (hds ▸ List.mem_append_right _ List.mem_cons_self) hends

/-- An escape ends before the text does. -/
theorem IsEscape.closes (hquote : quote ∈ ['\'', '"']) (h : IsEscape IsHexRead behind word c?)
    (hcloses : Closes quote ('\\' :: (word ++ behind))) : Closes quote behind := by
  cases h with
  | control h =>
      refine hcloses.of_escaped hquote ?_
      rintro rfl
      revert h
      simp [controls]
  | @number ds d h =>
      have hdigits : Closes quote (ds ++ behind) := hcloses.of_escaped (c := 'u') hquote nofun
      exact hdigits.of_append h.not_backslash (h.not_quote hquote)
  | lineEnd h =>
      refine hcloses.of_escaped hquote ?_
      rintro rfl
      exact absurd h (by decide)
  | returnLine => exact hcloses.of_returnLine hquote
  | returnAlone h => exact hcloses.of_escaped hquote fun _ => h
  | other _ hline _ =>
      refine hcloses.of_escaped hquote ?_
      rintro rfl
      cases hline

/-- A text that is not read does not come to its end. -/
theorem not_closes_of_quoted (hquote : quote ∈ ['\'', '"']) (h : quoted quote place = .error stop) :
    ¬Closes quote place.rest := by
  obtain ⟨hbackslash, hline⟩ := plain_of_quote hquote
  fun_induction quoted quote place with
  | case1 place hn =>
      rintro ⟨passed, bare, rest, hpassed, -⟩
      rw [Cursor.next?_eq_none_iff.mp hn] at hpassed
      cases passed <;> cases hpassed
  | case2 place c after hn hc =>
      rintro ⟨passed, bare, rest, hpassed, hbare, hfeed, hreturn⟩
      rw [(Cursor.passes_of_next? hn).rest, List.singleton_append] at hpassed
      cases hbare with
      | nil =>
          obtain ⟨rfl, -⟩ := List.cons.inj hpassed
          exact hline hc
      | plain _ _ =>
          obtain ⟨rfl, -⟩ := List.cons.inj hpassed
          rcases hc with rfl | rfl
          · exact hfeed List.mem_cons_self
          · exact hreturn List.mem_cons_self
      | returnLine _ | escaped _ _ =>
          obtain ⟨rfl, -⟩ := List.cons.inj hpassed
          revert hc
          decide
  | case3 => cases h
  | case4 => cases h
  | case5 place after stop' hrest hn hc hquote' ih =>
      intro hcloses
      rw [(Cursor.passes_of_next? hn).rest, List.singleton_append] at hcloses
      refine ih (by rw [hrest]; exact h) ?_
      -- nothing can be closed behind a backslash that is the end of the source
      obtain ⟨n, _ | ⟨c, cs⟩⟩ := after
      · obtain ⟨_ | ⟨c, passed⟩, bare, rest, hpassed, -⟩ := hcloses
        · exact absurd (List.cons.inj hpassed).1.symm hbackslash
        · cases passed <;> cases (List.cons.inj hpassed).2
      · obtain ⟨word, behind, c?, hcs, hescape⟩ := exists_isEscape c cs
        rw [hcs, escape_of_isEscape hescape]
        exact hescape.closes hquote (hcs ▸ hcloses)
  | case6 => cases h
  | case7 place c after hn hc hquote' hescape stop' hrest ih =>
      rintro ⟨passed, bare, rest, hpassed, hbare, hfeed, hreturn⟩
      rw [(Cursor.passes_of_next? hn).rest, List.singleton_append] at hpassed
      refine ih (by rw [hrest]; exact h) ?_
      cases hbare with
      | nil => exact absurd (List.cons.inj hpassed).1 hquote'
      | plain _ hcs =>
          rw [List.mem_cons, not_or] at hfeed hreturn
          exact ⟨_, _, rest, (List.cons.inj hpassed).2, hcs, hfeed.2, hreturn.2⟩
      | returnLine _ | escaped _ _ => exact absurd (List.cons.inj hpassed).1 hescape

theorem Decodes.closes (h : Decodes hex quote after value stop) : Closes quote after.rest := by
  obtain ⟨passed, bare, hpasses, hbare, hothers, -⟩ := h
  refine ⟨passed, bare, stop.rest, ?_, hbare, fun hmem => ?_, fun hmem => ?_⟩
  · rw [hpasses.rest, List.append_assoc, List.singleton_append]
  · exact hothers _ hmem (by simp)
  · exact hothers _ hmem (by simp)

theorem decodes_of_quoted (hquote : quote ∈ ['\'', '"']) (h : quoted quote after = .ok (value, stop)) :
    Decodes IsHexRead quote after value stop := by
  obtain ⟨passed, hpasses, hspells⟩ := spells_of_quoted h
  obtain ⟨bare, hbare, hothers⟩ := hspells.exists_bare hquote
  exact ⟨passed, bare, hpasses, hbare, hothers, hspells⟩

theorem quoted_of_decodes (hquote : quote ∈ ['\'', '"']) (h : Decodes IsHexRead quote after value stop) :
    quoted quote after = .ok (value, stop) := by
  obtain ⟨passed, bare, hpasses, -, -, hspells⟩ := h
  have hafter : after = ⟨after.offset, passed ++ quote :: stop.rest⟩ := by
    rw [Cursor.mk.injEq, hpasses.rest, List.append_assoc, List.singleton_append]
    exact ⟨rfl, rfl⟩
  have hstop : stop = ⟨after.offset + size passed + quote.utf8Size, stop.rest⟩ := by
    rw [Cursor.mk.injEq, hpasses.offset, Text.size_append, Nat.add_assoc]
    exact ⟨rfl, rfl⟩
  rw [hafter, quoted_of_spells hquote hspells, ← hstop]

/-- A quote begins a text. The text is read exactly if it comes to the quote once more outside of an escape, and to no
raw line end before; it ends at the first such quote, and its value is that of its units. -/
theorem texts_decoded (hquote : quote ∈ ['\'', '"']) (after : Cursor) :
    ((∃ token, lexeme quote after = .ok token) ↔ Closes quote after.rest) ∧
      ∀ kind stop, lexeme quote after = .ok (kind, stop) ↔
        ∃ value, kind = .text (String.ofList value) ∧ Decodes IsHexRead quote after value stop := by
  have hlexeme : lexeme quote after = textToken quote after := by
    simp only [List.mem_cons, List.not_mem_nil, or_false] at hquote
    rcases hquote with rfl | rfl <;> rfl
  rw [hlexeme, textToken]
  cases hquoted : quoted quote after with
  | error stop =>
      have hcloses := not_closes_of_quoted hquote hquoted
      refine ⟨iff_of_false ?_ hcloses, fun kind stop' => iff_of_false ?_ ?_⟩
      · rintro ⟨token, htoken⟩
        cases htoken
      · intro htoken
        cases htoken
      · rintro ⟨value, -, hvalue⟩
        exact hcloses hvalue.closes
  | ok pair =>
      obtain ⟨value, stop⟩ := pair
      have hvalue := decodes_of_quoted hquote hquoted
      refine ⟨iff_of_true ⟨_, rfl⟩ hvalue.closes, fun kind stop' => ⟨?_, ?_⟩⟩
      · rintro ⟨⟩
        exact ⟨value, rfl, hvalue⟩
      · rintro ⟨value', rfl, hvalue'⟩
        have hsame := hquoted.symm.trans (quoted_of_decodes hquote hvalue')
        cases hsame
        rfl

theorem texts_decoded_escapes :
    '"' ∈ ['\'', '"'] ∧
      lexeme '"' ⟨1, ['a', '\\', 'n', '\\', '\n', 'b', '"', 'c']⟩ = .ok (.text "a\nb", ⟨8, ['c']⟩) := by
  have hquote : '"' ∈ ['\'', '"'] := by decide
  have hpasses : Cursor.Passes ⟨1, ['a', '\\', 'n', '\\', '\n', 'b', '"', 'c']⟩
      (['a', '\\', 'n', '\\', '\n', 'b'] ++ ['"']) ⟨8, ['c']⟩ := ⟨rfl, rfl⟩
  have hbare : Bare ['a', '\\', 'n', '\\', '\n', 'b'] ['a', 'b'] :=
    .plain (by decide) (.escaped nofun (.escaped nofun (.plain (by decide) .nil)))
  have hspells : Spells IsHexRead '"' ['"', 'c'] ['a', '\\', 'n', '\\', '\n', 'b'] ['a', '\n', 'b'] := by
    have hfeed : IsEscape IsHexRead ['\\', '\n', 'b', '"', 'c'] ['n'] (some '\n') := .control (by decide)
    have hline : IsEscape IsHexRead ['b', '"', 'c'] ['\n'] none := .lineEnd (by decide)
    exact .plain (by decide) (.escape hfeed (.escape hline (.plain (by decide) .nil)))
  have hdecodes : Decodes IsHexRead '"' ⟨1, ['a', '\\', 'n', '\\', '\n', 'b', '"', 'c']⟩ ['a', '\n', 'b'] ⟨8, ['c']⟩ :=
    ⟨_, _, hpasses, hbare, by simp, hspells⟩
  exact ⟨hquote, ((texts_decoded hquote _).2 _ _).mpr ⟨_, rfl, hdecodes⟩⟩

/-- At a backslash stands an escape. -/
theorem Spells.of_backslash {passed : List Char} (h : Spells hex quote behind ('\\' :: passed) value) :
    ∃ word more c? value', passed = word ++ more ∧ value = c?.toList ++ value' ∧
      IsEscape hex (more ++ behind) word c? := by
  generalize hall : '\\' :: passed = all at h
  cases h with
  | nil => cases hall
  | plain hc _ =>
      cases hall
      exact absurd (by simp) hc
  | @escape word more value' c? hword hmore => exact ⟨word, more, c?, value', (List.cons.inj hall).2, rfl, hword⟩

/-- A plus sign and three digits are no number of a character, so that only the backslash goes away; they are taken for
one. -/
theorem plus_taken_for_digit :
    lexeme '\'' ⟨1, ['\\', 'u', '+', '0', '4', '1', '\'']⟩ = .ok (.text "A", ⟨8, []⟩) ∧
      Decodes IsHex '\'' ⟨1, ['\\', 'u', '+', '0', '4', '1', '\'']⟩ ['u', '+', '0', '4', '1'] ⟨8, []⟩ ∧
      ¬Decodes IsHex '\'' ⟨1, ['\\', 'u', '+', '0', '4', '1', '\'']⟩ ['A'] ⟨8, []⟩ := by
  have hpasses : Cursor.Passes ⟨1, ['\\', 'u', '+', '0', '4', '1', '\'']⟩
      (['\\', 'u', '+', '0', '4', '1'] ++ ['\'']) ⟨8, []⟩ := ⟨rfl, rfl⟩
  have hbare : Bare ['\\', 'u', '+', '0', '4', '1'] ['+', '0', '4', '1'] :=
    .escaped nofun (.plain (by decide) (.plain (by decide) (.plain (by decide) (.plain (by decide) .nil))))
  refine ⟨?_, ⟨_, _, hpasses, hbare, by simp, ?_⟩, ?_⟩
  · have hnumber : IsHexRead ['+', '0', '4', '1'] 'A' := Or.inr ⟨_, rfl, [0, 0, 4, 1], rfl, rfl, rfl⟩
    have hread : Decodes IsHexRead '\'' ⟨1, ['\\', 'u', '+', '0', '4', '1', '\'']⟩ ['A'] ⟨8, []⟩ :=
      ⟨_, _, hpasses, hbare, by simp, .escape (.number hnumber) .nil⟩
    change textToken '\'' _ = _
    rw [textToken, quoted_of_decodes (by decide) hread]
  · have hletter : IsEscape IsHex ['+', '0', '4', '1', '\''] ['u'] (some 'u') := by
      refine .other (by decide) (by decide) fun _ ds more d hbehind hd => ?_
      cases ds with
      | nil => cases hd.length
      | cons e ds =>
          obtain ⟨rfl, -⟩ := List.cons.inj hbehind
          exact not_isHex_plus ds hd
    have hmore : Spells IsHex '\'' ['\''] ['+', '0', '4', '1'] ['+', '0', '4', '1'] :=
      .plain (by decide) (.plain (by decide) (.plain (by decide) (.plain (by decide) .nil)))
    exact .escape hletter hmore
  · rintro ⟨passed, bare, hpasses', -, -, hspells⟩
    obtain rfl : ['\\', 'u', '+', '0', '4', '1'] = passed :=
      List.append_cancel_right (hpasses'.rest.trans (List.append_nil _))
    obtain ⟨word, more, c?, value', hword, hvalue, hescape⟩ := hspells.of_backslash
    cases hescape with
    | control h =>
        cases hword
        revert h
        simp [controls]
    | @number ds c h =>
        cases ds with
        | nil => cases h.length
        | cons d ds =>
            obtain ⟨rfl, -⟩ := List.cons.inj (List.cons.inj hword).2
            exact not_isHex_plus ds h
    | lineEnd h =>
        cases hword
        exact absurd h (by decide)
    | returnLine | returnAlone _ => cases hword
    | other _ _ _ =>
        cases hword
        cases hvalue

end ScriptRepl.Syntax.Lexer
