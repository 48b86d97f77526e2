import Mathlib.Data.List.Basic
import Mathlib.Data.List.TakeWhile
import ScriptRepl.Proofs.Console.Styled

/-! Which texts are escape sequences. A reader takes the longest one that a text begins with, and what it takes depends
on nothing behind it but on a command that never ends. So rendition sequences can be put between any two pieces of a
line: the pieces stay what they are. -/
namespace ScriptRepl.Text

namespace Escape

/-! ### Kinds of characters -/

variable {c : Char}

theorem bounds_of_isParameter (h : isParameter c = true) : 0x30 ≤ c.toNat ∧ c.toNat ≤ 0x3f := by
  simp only [isParameter, Char.isDigit, Bool.or_eq_true, Bool.and_eq_true, decide_eq_true_eq, beq_iff_eq,
    UInt32.le_iff_toNat_le] at h
  rcases h with (⟨hlow, hhigh⟩ | rfl) | rfl
  · exact ⟨hlow, Nat.le_trans hhigh (by decide)⟩
  · decide
  · decide

theorem bounds_of_isIntermediate (h : isIntermediate c = true) : 0x20 ≤ c.toNat ∧ c.toNat ≤ 0x2f := by
  simpa [isIntermediate, Char.le_def, UInt32.le_iff_toNat_le] using h

theorem bounds_of_isFinal (h : isFinal c = true) : 0x40 ≤ c.toNat ∧ c.toNat ≤ 0x7e := by
  simpa [isFinal, Char.le_def, UInt32.le_iff_toNat_le] using h

theorem ne_bracket_of_isSingle (h : isSingle c = true) : c ≠ '[' := by
  rintro rfl
  revert h
  decide

theorem isParameter_eq_false (h : c.toNat < 0x30 ∨ 0x3f < c.toNat) : isParameter c = false := by
  refine Bool.eq_false_iff.mpr fun hc => ?_
  have hbounds := bounds_of_isParameter hc
  omega

theorem isIntermediate_eq_false (h : c.toNat < 0x20 ∨ 0x2f < c.toNat) : isIntermediate c = false := by
  refine Bool.eq_false_iff.mpr fun hc => ?_
  have hbounds := bounds_of_isIntermediate hc
  omega

/-! ### Lengths -/

variable {cs : List Char} {n : Nat}

theorem controlLength?_of_parts {ps is : List Char} {f : Char} (hps : ∀ c ∈ ps, isParameter c = true)
    (his : ∀ c ∈ is, isIntermediate c = true) (hf : isFinal f = true) (rest : List Char) :
    controlLength? (ps ++ (is ++ f :: rest)) = some (ps.length + is.length + 1) := by
  have hfinal := bounds_of_isFinal hf
  have hparameters : (ps ++ (is ++ f :: rest)).takeWhile isParameter = ps := by
    rw [List.takeWhile_append_of_pos hps]
    cases is with
    | nil => simp [isParameter_eq_false (.inr (show 0x3f < f.toNat by omega))]
    | cons c is =>
        have hc := bounds_of_isIntermediate (his c List.mem_cons_self)
        simp [isParameter_eq_false (.inl (show c.toNat < 0x30 by omega))]
  have hintermediates : (is ++ f :: rest).takeWhile isIntermediate = is := by
    rw [List.takeWhile_append_of_pos his]
    simp [isIntermediate_eq_false (.inr (show 0x2f < f.toNat by omega))]
  unfold controlLength?
  rw [hparameters]
  dsimp only
  rw [List.drop_left, hintermediates, List.drop_left]
  exact if_pos hf

theorem parts_of_controlLength? (h : controlLength? cs = some n) :
    ∃ ps is f rest, cs = ps ++ (is ++ f :: rest) ∧ (∀ c ∈ ps, isParameter c = true) ∧
      (∀ c ∈ is, isIntermediate c = true) ∧ isFinal f = true ∧ n = ps.length + is.length + 1 := by
  unfold controlLength? at h
  dsimp only at h
  have hparameters := List.prefix_iff_eq_append.mp (List.takeWhile_prefix isParameter (l := cs))
  generalize hps : cs.takeWhile isParameter = ps at h hparameters
  have hintermediates :=
    List.prefix_iff_eq_append.mp (List.takeWhile_prefix isIntermediate (l := cs.drop ps.length))
  generalize his : (cs.drop ps.length).takeWhile isIntermediate = is at h hintermediates
  split at h
  · rename_i f rest hrest
    split at h
    · rename_i hf
      refine ⟨ps, is, f, rest, ?_, ?_, ?_, hf, (Option.some.inj h).symm⟩
      · rw [← hrest, hintermediates, hparameters]
      · intro c hc
        exact List.mem_takeWhile_imp (hps ▸ hc)
      · intro c hc
        exact List.mem_takeWhile_imp (his ▸ hc)
    · cases h
  · cases h

/-- What ends an operating system command. -/
def EndsCommand (ending : List Char) : Prop :=
  ending = ['\x07'] ∨ ending = ['\x1b', '\\']

theorem commandLength?_of_parts {body ending : List Char} (hbody : ∀ c ∈ body, c ≠ '\x07' ∧ c ≠ '\x1b')
    (hending : EndsCommand ending) (rest : List Char) :
    commandLength? (body ++ (ending ++ rest)) = some (body.length + ending.length) := by
  have hinside : ∀ c ∈ body, (c != '\x07' && c != '\x1b') = true := by
    intro c hc
    simpa using hbody c hc
  unfold commandLength?
  dsimp only
  rw [List.takeWhile_append_of_pos hinside]
  rcases hending with rfl | rfl
  · simp
  · simp

theorem parts_of_commandLength? (h : commandLength? cs = some n) :
    ∃ body ending rest, cs = body ++ (ending ++ rest) ∧ (∀ c ∈ body, c ≠ '\x07' ∧ c ≠ '\x1b') ∧
      EndsCommand ending ∧ n = body.length + ending.length := by
  unfold commandLength? at h
  dsimp only at h
  have hparts := List.prefix_iff_eq_append.mp
    (List.takeWhile_prefix (fun c => c != '\x07' && c != '\x1b') (l := cs))
  generalize hbody : cs.takeWhile (fun c => c != '\x07' && c != '\x1b') = body at h hparts
  have hinside : ∀ c ∈ body, c ≠ '\x07' ∧ c ≠ '\x1b' := by
    intro c hc
    rw [← hbody] at hc
    have hclass := List.mem_takeWhile_imp hc
    simpa using hclass
  split at h
  · rename_i rest hrest
    rw [hrest] at hparts
    exact ⟨body, ['\x07'], rest, hparts.symm, hinside, .inl rfl, (Option.some.inj h).symm⟩
  · rename_i rest hrest
    rw [hrest] at hparts
    exact ⟨body, ['\x1b', '\\'], rest, hparts.symm, hinside, .inr rfl, (Option.some.inj h).symm⟩
  · cases h

end Escape

open Escape

/-! ### Sequences -/

/-- The texts that are escape sequences: control sequences, operating system commands, and those of two characters. -/
inductive IsSequence : List Char → Prop where
  | control {ps is : List Char} {f : Char} (hps : ∀ c ∈ ps, isParameter c = true)
      (his : ∀ c ∈ is, isIntermediate c = true) (hf : isFinal f = true) :
      IsSequence ('\x1b' :: '[' :: (ps ++ (is ++ [f])))
  | command {body ending : List Char} (hbody : ∀ c ∈ body, c ≠ '\x07' ∧ c ≠ '\x1b') (hending : EndsCommand ending) :
      IsSequence ('\x1b' :: ']' :: (body ++ ending))
  | single {c : Char} (hc : isSingle c = true) : IsSequence ['\x1b', c]

variable {cs t rest : List Char} {n : Nat}

theorem IsSequence.exists_cons (h : IsSequence t) : ∃ c rest, t = '\x1b' :: c :: rest := by
  cases h with
  | control => exact ⟨_, _, rfl⟩
  | command => exact ⟨_, _, rfl⟩
  | single => exact ⟨_, _, rfl⟩

theorem sequence_of_lengthPred? (h : lengthPred? cs = some n) : ∃ t, IsSequence t ∧ t <+: cs ∧ t.length = n + 1 := by
  unfold lengthPred? at h
  split at h
  · rename_i cs
    obtain ⟨k, hk, rfl⟩ := Option.map_eq_some_iff.mp h
    obtain ⟨ps, is, f, rest, hcs, hps, his, hf, hlength⟩ := parts_of_controlLength? hk
    refine ⟨'\x1b' :: '[' :: (ps ++ (is ++ [f])), .control hps his hf, ⟨rest, by simp [hcs]⟩, ?_⟩
    simp
    omega
  · rename_i cs
    cases hk : commandLength? cs with
    | none =>
        rw [hk] at h
        exact ⟨['\x1b', ']'], .single (by decide), ⟨cs, rfl⟩, congrArg (· + 1) (Option.some.inj h)⟩
    | some k =>
        rw [hk, Option.getD_some, Option.some.injEq] at h
        obtain ⟨body, ending, rest, hcs, hbody, hending, hlength⟩ := parts_of_commandLength? hk
        refine ⟨'\x1b' :: ']' :: (body ++ ending), .command hbody hending, ⟨rest, by simp [hcs]⟩, ?_⟩
        simp
        omega
  · rename_i c rest _ _
    split at h
    · rename_i hc
      exact ⟨['\x1b', c], .single hc, ⟨rest, rfl⟩, congrArg (· + 1) (Option.some.inj h)⟩
    · cases h
  · cases h

/-- A text that begins with a sequence is read as one at least as long. -/
theorem lengthPred?_of_prefix (h : IsSequence t) (hstart : t <+: cs) :
    ∃ n, lengthPred? cs = some n ∧ t.length ≤ n + 1 := by
  obtain ⟨rest, rfl⟩ := hstart
  cases h with
  | @control ps is f hps his hf =>
      have hcs : '\x1b' :: '[' :: (ps ++ (is ++ [f])) ++ rest = '\x1b' :: '[' :: (ps ++ (is ++ f :: rest)) := by simp
      rw [hcs, lengthPred?, controlLength?_of_parts hps his hf]
      refine ⟨_, rfl, ?_⟩
      simp
      omega
  | @command body ending hbody hending =>
      have hcs : '\x1b' :: ']' :: (body ++ ending) ++ rest = '\x1b' :: ']' :: (body ++ (ending ++ rest)) := by simp
      rw [hcs, lengthPred?, commandLength?_of_parts hbody hending]
      exact ⟨_, rfl, by simp⟩
  | @single c hc =>
      unfold lengthPred?
      split
      · rename_i heq
        simp only [List.cons_append, List.nil_append, List.cons.injEq, true_and] at heq
        exact absurd heq.1 (ne_bracket_of_isSingle hc)
      · exact ⟨_, rfl, by simp⟩
      · rename_i heq
        simp only [List.cons_append, List.nil_append, List.cons.injEq, true_and] at heq
        rw [← heq.1, if_pos hc]
        exact ⟨1, rfl, Nat.le_refl 2⟩
      · rename_i hother
        exact absurd rfl (hother c rest)

/-! ### Pieces and what comes behind them -/

/-- In front of a text the piece is read as it is: as the longest sequence, or as a character that begins none. -/
def Piece.Leads (rest : List Char) : Piece → Prop
  | .code t => IsSequence t ∧ ∀ t', IsSequence t' → t' <+: t ++ rest → t'.length ≤ t.length
  | .shown c => ∀ t', IsSequence t' → ¬ t' <+: c :: rest

theorem pieces_of_leads {p : Piece} (h : p.Leads rest) : pieces (p.text ++ rest) = p :: pieces rest := by
  cases p with
  | code t =>
      obtain ⟨ht, hlongest⟩ := h
      obtain ⟨n, hn, hle⟩ := lengthPred?_of_prefix ht (List.prefix_append t rest)
      obtain ⟨t', ht', hstart, hlength⟩ := sequence_of_lengthPred? hn
      have hsame := hlongest t' ht' hstart
      obtain ⟨c, cs, rfl⟩ := ht.exists_cons
      have hcs : n = (c :: cs).length := by
        rw [List.length_cons] at hle hsame
        omega
      rw [Piece.text, List.cons_append, pieces, ← List.cons_append, hn]
      dsimp only
      rw [hcs, List.take_left, List.drop_left]
  | shown c =>
      have hnone : lengthPred? (c :: rest) = none := by
        cases hn : lengthPred? (c :: rest) with
        | none => rfl
        | some n =>
            obtain ⟨t', ht', hstart, -⟩ := sequence_of_lengthPred? hn
            exact absurd hstart (h t' ht')
      rw [Piece.text, List.cons_append, List.nil_append, pieces, hnone]

/-- The pieces are those of their texts, one behind the other. -/
def AsRead (ps : List Piece) : Prop :=
  pieces (ps.flatMap Piece.text) = ps

theorem asRead_pieces (cs : List Char) : AsRead (pieces cs) := by
  rw [AsRead, pieces_flatMap_text]

theorem asRead_cons_iff {p : Piece} {ps : List Piece} :
    AsRead (p :: ps) ↔ p.Leads (ps.flatMap Piece.text) ∧ AsRead ps := by
  unfold AsRead
  rw [List.flatMap_cons]
  generalize hrest : ps.flatMap Piece.text = rest
  constructor
  · intro h
    cases htext : p.text ++ rest with
    | nil =>
        rw [htext, pieces] at h
        cases h
    | cons c cs =>
        rw [htext, pieces] at h
        split at h
        · rename_i n hn
          obtain ⟨rfl, hps⟩ := List.cons.inj h
          obtain ⟨t, ht, hstart, hlength⟩ := sequence_of_lengthPred? hn
          have htake : t = c :: cs.take n := by
            rw [List.prefix_iff_eq_take.mp hstart, hlength, List.take_succ_cons]
          have hcs : cs.drop n = rest := by
            rw [Piece.text, List.cons_append, List.cons.injEq] at htext
            exact List.append_cancel_left ((List.take_append_drop n cs).trans htext.2.symm)
          refine ⟨⟨htake ▸ ht, ?_⟩, by rw [← hcs, hps]⟩
          intro t' ht' hstart'
          have hstart' : t' <+: c :: cs := htext ▸ hstart'
          obtain ⟨m, hm, hle⟩ := lengthPred?_of_prefix ht' hstart'
          rw [hn, Option.some.injEq] at hm
          rw [← htake, hlength, hm]
          exact hle
        · rename_i hn
          obtain ⟨rfl, hps⟩ := List.cons.inj h
          obtain ⟨-, rfl⟩ := List.cons.inj htext
          refine ⟨?_, hps⟩
          intro t' ht' hstart'
          obtain ⟨m, hm, -⟩ := lengthPred?_of_prefix ht' hstart'
          cases hn.symm.trans hm
  · rintro ⟨hleads, hps⟩
    rw [pieces_of_leads hleads, hps]

/-! ### What is put between pieces -/

/-- Behind its first character a sequence has an escape character only where a command ends. -/
theorem IsSequence.eq_of_escape_inside {front back : List Char} (h : IsSequence ('\x1b' :: (front ++ '\x1b' :: back))) :
    back = ['\\'] := by
  generalize ht : '\x1b' :: (front ++ '\x1b' :: back) = t at h
  have hmem : '\x1b' ∈ t.tail := by
    rw [← ht]
    simp
  cases h with
  | @control ps is f hps his hf =>
      simp only [List.tail_cons, List.mem_cons, List.mem_append, List.not_mem_nil, or_false] at hmem
      rcases hmem with hc | hc | hc | hc
      · cases hc
      · exact absurd (hps _ hc) (by decide)
      · exact absurd (his _ hc) (by decide)
      · rw [← hc] at hf
        exact absurd hf (by decide)
  | @command body ending hbody hending =>
      have hnone : '\x1b' ∉ ']' :: body := by
        intro hc
        rcases List.mem_cons.mp hc with hc | hc
        · cases hc
        · exact (hbody _ hc).2 rfl
      rcases hending with rfl | rfl
      · rcases List.mem_append.mp (show '\x1b' ∈ (']' :: body) ++ ['\x07'] from hmem) with hc | hc
        · exact absurd hc hnone
        · cases List.mem_singleton.mp hc
      · have hparts : (']' :: body) ++ '\x1b' :: ['\\'] = front ++ '\x1b' :: back := (List.cons.inj ht).2.symm
        have hend : '\x1b' ∉ ['\\'] := by decide
        exact ((List.append_cons_inj_of_notMem hnone hend).mp hparts).2.2.symm
  | @single c hc =>
      rw [List.tail_cons, List.mem_singleton] at hmem
      rw [← hmem] at hc
      exact absurd hc (by decide)

/-- A sequence that begins a text with a control sequence in its middle ends before that. -/
theorem IsSequence.prefix_of_control {front : List Char} (h : IsSequence t) (hfront : front ≠ [])
    (hstart : t <+: front ++ '\x1b' :: '[' :: rest) : t <+: front := by
  obtain ⟨more, hmore⟩ := hstart
  rcases List.append_eq_append_iff.mp hmore with ⟨as, hfront', -⟩ | ⟨bs, ht, hbs⟩
  · exact ⟨as, hfront'.symm⟩
  · cases bs with
    | nil => exact ⟨[], by rw [ht, List.append_nil, List.append_nil]⟩
    | cons b bs =>
        obtain ⟨c, front, rfl⟩ := List.exists_cons_of_ne_nil hfront
        obtain ⟨rfl, hback⟩ := List.cons.inj hbs
        obtain ⟨d, rest', hcons⟩ := h.exists_cons
        obtain rfl : c = '\x1b' := (List.cons.inj (ht.symm.trans hcons)).1
        rw [ht] at h
        rw [h.eq_of_escape_inside] at hback
        cases hback

theorem renditionCode_append (ps rest : List Char) :
    renditionCode ps ++ rest = '\x1b' :: '[' :: (ps ++ 'm' :: rest) := by
  simp [renditionCode]

/-- What stands behind a piece can be parted by a rendition sequence. -/
theorem Piece.Leads.insert {p : Piece} {a b : List Char} (h : p.Leads (a ++ b)) (ps : List Char) :
    p.Leads (a ++ (renditionCode ps ++ b)) := by
  cases p with
  | code t =>
      refine ⟨h.1, ?_⟩
      intro t' ht' hstart
      have hne : t ++ a ≠ [] := by
        obtain ⟨c, rest, rfl⟩ := h.1.exists_cons
        exact nofun
      rw [renditionCode_append, ← List.append_assoc] at hstart
      have hbefore := ht'.prefix_of_control hne hstart
      apply h.2 t' ht'
      rw [← List.append_assoc]
      exact hbefore.trans (List.prefix_append _ b)
  | shown c =>
      intro t' ht' hstart
      rw [renditionCode_append, ← List.cons_append] at hstart
      have hbefore := ht'.prefix_of_control (List.cons_ne_nil c a) hstart
      apply h t' ht'
      rw [← List.cons_append]
      exact hbefore.trans (List.prefix_append _ b)

theorem AsRead.insert {before after : List Piece} (h : AsRead (before ++ after)) {ps : List Char}
    (hps : ∀ c ∈ ps, isRendition c = true) : AsRead (before ++ .code (renditionCode ps) :: after) := by
  induction before with
  | nil =>
      rw [List.nil_append, AsRead] at h ⊢
      rw [List.flatMap_cons, Piece.text, pieces_renditionCode hps, h]
  | cons p before ih =>
      rw [List.cons_append, asRead_cons_iff, List.flatMap_append] at h ⊢
      refine ⟨?_, ih h.2⟩
      rw [List.flatMap_cons]
      exact h.1.insert ps

/-- The second list is the first one with codes of a class in between. -/
inductive Interspersed (p : List Char → Prop) : List Piece → List Piece → Prop where
  | nil : Interspersed p [] []
  | keep (piece : Piece) {line out : List Piece} (hrest : Interspersed p line out) :
      Interspersed p (piece :: line) (piece :: out)
  | add {code : List Char} {line out : List Piece} (hcode : p code) (hrest : Interspersed p line out) :
      Interspersed p line (.code code :: out)

namespace Interspersed

variable {p : List Char → Prop} {line out : List Piece}

theorem refl (line : List Piece) : Interspersed p line line := by
  induction line with
  | nil => exact .nil
  | cons piece line ih => exact .keep piece ih

theorem shown_eq (h : Interspersed p line out) : out.filterMap Piece.shown? = line.filterMap Piece.shown? := by
  induction h with
  | nil => rfl
  | keep piece _ ih => rw [List.filterMap_cons, List.filterMap_cons, ih]
  | add _ _ ih => rw [List.filterMap_cons_none rfl, ih]

/-- Rendition sequences in between are pieces of their own, and leave the others as they are. -/
theorem asRead (h : Interspersed p line out)
    (hp : ∀ code, p code → ∃ ps, code = renditionCode ps ∧ ∀ c ∈ ps, isRendition c = true) (hline : AsRead line) :
    AsRead out := by
  suffices hall : ∀ before, AsRead (before ++ line) → AsRead (before ++ out) from hall [] hline
  clear hline
  induction h with
  | nil => exact fun _ hread => hread
  | keep piece _ ih =>
      intro before hread
      rw [List.append_cons] at hread ⊢
      exact ih _ hread
  | @add code line out hcode _ ih =>
      intro before hread
      obtain ⟨ps, rfl, hps⟩ := hp code hcode
      rw [List.append_cons]
      apply ih
      rw [← List.append_cons]
      exact hread.insert hps

end Interspersed

end ScriptRepl.Text
