import Mathlib.Data.List.TakeWhile
import ScriptRepl.Proofs.Console.Terminal
import ScriptRepl.Proofs.Console.Typing
import ScriptRepl.Proofs.Text.EscapeSequence

/-! Control sequences as terminals send them. A decoder ends one at the first character that is no digit and no
semicolon, so that it knows only some of them; of the others it takes what comes behind that character for text. -/
namespace ScriptRepl.Console

/-- The escape character and `[`, then parameters, intermediate characters and a final one. -/
structure ControlSequence where
  parameters : List Char
  intermediates : List Char
  final : Char
  parameters_spec : ∀ c ∈ parameters, Text.Escape.isParameter c = true
  intermediates_spec : ∀ c ∈ intermediates, Text.Escape.isIntermediate c = true
  final_spec : Text.Escape.isFinal final = true

namespace ControlSequence

open Text.Escape (bounds_of_isParameter bounds_of_isIntermediate bounds_of_isFinal isParameter_eq_false)

variable (s : ControlSequence)

def text : List Char :=
  '\x1b' :: '[' :: (s.parameters ++ (s.intermediates ++ [s.final]))

/-- The parameters up to one that is no number. -/
def numbers : List Char :=
  s.parameters.takeWhile fun c => c.isDigit || c = ';'

/-- What comes behind the numbers. -/
def rest : List Char :=
  s.parameters.dropWhile (fun c => c.isDigit || c = ';') ++ (s.intermediates ++ [s.final])

/-- The character that ends the sequence for a decoder. -/
def ending : Char :=
  s.rest.headD s.final

theorem rest_eq : s.rest = s.ending :: s.rest.tail := by
  have hne : s.rest ≠ [] := by simp [rest]
  obtain ⟨c, cs, hcons⟩ := List.exists_cons_of_ne_nil hne
  rw [ending, hcons]
  rfl

theorem text_eq : s.text = '\x1b' :: '[' :: (s.numbers ++ s.ending :: s.rest.tail) := by
  rw [← rest_eq, numbers, rest, ← List.append_assoc, List.takeWhile_append_dropWhile]
  rfl

/-- A decoder takes the whole of a sequence exactly if there are numbers and nothing else before its final character. -/
theorem tail_rest_eq_nil : s.rest.tail = [] ↔ '?' ∉ s.parameters ∧ s.intermediates = [] := by
  have hlength : s.rest.tail = [] ↔ s.parameters.dropWhile (fun c => c.isDigit || c = ';') = [] ∧
      s.intermediates = [] := by
    rw [← List.length_eq_zero_iff, ← List.length_eq_zero_iff, ← List.length_eq_zero_iff]
    simp only [rest, List.length_tail, List.length_append, List.length_singleton]
    omega
  have hnumbers : s.parameters.dropWhile (fun c => c.isDigit || c = ';') = [] ↔ '?' ∉ s.parameters := by
    rw [List.dropWhile_eq_nil_iff]
    refine ⟨fun hall hmark => absurd (hall '?' hmark) (by decide), fun hmark c hc => ?_⟩
    have hne : c ≠ '?' := by
      rintro rfl
      exact hmark hc
    simpa [Text.Escape.isParameter, hne] using s.parameters_spec c hc
  rw [hlength, hnumbers]

/-- All of a sequence but its first character shows on its own. -/
theorem not_isControl_rest : ∀ c ∈ s.rest, ¬ Text.IsControl c := by
  intro c hc
  have hbounds : 0x20 ≤ c.toNat ∧ c.toNat ≤ 0x7e := by
    rcases List.mem_append.mp hc with hparameter | hlast
    · have hparameter := bounds_of_isParameter (s.parameters_spec c (List.dropWhile_subset _ hparameter))
      omega
    · rcases List.mem_append.mp hlast with hintermediate | hfinal
      · have hintermediate := bounds_of_isIntermediate (s.intermediates_spec c hintermediate)
        omega
      · have hfinal := bounds_of_isFinal (List.mem_singleton.mp hfinal ▸ s.final_spec)
        omega
  unfold Text.IsControl
  omega

theorem not_number_ending : (s.ending.isDigit || s.ending = ';') = false := by
  have hnumber : ∀ c, Text.Escape.isParameter c = false → (c.isDigit || c = ';') = false := by
    intro c hc
    simp only [Text.Escape.isParameter, Bool.or_eq_false_iff, beq_eq_false_iff_ne] at hc
    simp [hc.1.1, hc.1.2]
  unfold ending rest
  cases hparameters : s.parameters.dropWhile (fun c => c.isDigit || c = ';') with
  | cons c cs =>
      have hhead := List.head?_dropWhile_not (fun c => c.isDigit || c = ';') s.parameters
      rw [hparameters] at hhead
      exact hhead
  | nil =>
      cases hintermediates : s.intermediates with
      | nil =>
          have hfinal := bounds_of_isFinal s.final_spec
          exact hnumber s.final (isParameter_eq_false (.inr (by omega)))
      | cons c cs =>
          have hc := bounds_of_isIntermediate (s.intermediates_spec c (hintermediates ▸ List.mem_cons_self ..))
          exact hnumber c (isParameter_eq_false (.inl (by omega)))

/-- A reader of escape sequences takes it as a whole. -/
theorem pieces_text : Text.pieces s.text = [.code s.text] := by
  have hleads : Text.Piece.Leads [] (.code s.text) := by
    refine ⟨.control s.parameters_spec s.intermediates_spec s.final_spec, fun t _ hstart => ?_⟩
    rw [List.append_nil] at hstart
    exact hstart.length_le
  have hpieces := Text.pieces_of_leads hleads
  rwa [Text.Piece.text, List.append_nil, Text.pieces] at hpieces

end ControlSequence

namespace Key

theorem joinText_eq_nil {ks : List Key} : joinText ks = [] ↔ ks = [] := by
  cases ks with
  | nil => simp [joinText]
  | cons k ks =>
      rw [joinText_cons]
      unfold joinOne
      repeat' split
      all_goals simp

/-- A key that is no text is not joined with another one. -/
theorem eq_of_joinText_eq {ks : List Key} {k : Key} (hk : k.isText = false) (h : joinText ks = [k]) : ks = [k] := by
  cases ks with
  | nil => cases h
  | cons l ls =>
      rw [joinText_cons] at h
      unfold joinOne at h
      split at h
      · rename_i hnone
        rw [joinText_eq_nil.mp hnone]
        exact h
      · split at h
        · obtain ⟨rfl, -⟩ := List.cons.inj h
          cases hk
        · cases h

theorem joinText_cons_typed {k : Key} (hk : k.isText = false) (cs : List Char) :
    joinText (k :: cs.map fun c => .text c.toString) = k :: Decoder.typed cs := by
  rw [joinText_cons]
  cases cs with
  | nil => rfl
  | cons c cs =>
      rw [joinText_singletons, joinOne, hk]
      rfl

end Key

namespace Decoder

/-- Numbers are part of the sequence. -/
theorem keys_numbers {d : Decoder} {cs : List Char} (h : ∀ c ∈ cs, (c.isDigit || c = ';') = true) {read : String}
    (hsequence : d.sequence = .control read) (hreturn : d.afterReturn = false) :
    d.keys cs = ([], { d with sequence := .control (read ++ String.ofList cs) }) := by
  induction cs generalizing d read with
  | nil => simp [keys, ← hsequence]
  | cons c cs ih =>
      obtain ⟨hc, hcs⟩ := List.forall_mem_cons.mp h
      have hstep : d.step c = (none, { d with sequence := .control (read.push c) }) := by
        unfold step
        rw [hsequence]
        dsimp only
        rw [if_pos hc, hreturn]
      rw [keys, hstep]
      dsimp only
      rw [ih (d := { d with sequence := .control (read.push c) }) hcs rfl hreturn]
      have hread : read.push c ++ String.ofList cs = read ++ String.ofList (c :: cs) := by
        rw [← String.toList_inj]
        simp
      rw [hread]
      rfl

theorem keys_controlSequence (s : ControlSequence) {d : Decoder} (hsequence : d.sequence = .none) :
    d.keys s.text =
      (Sequence.controlKey (String.ofList s.numbers) s.ending :: s.rest.tail.map fun c => .text c.toString,
        { d with afterReturn := false }) := by
  have hopened : d.keys ['\x1b', '['] = ([], { d with sequence := .control "", afterReturn := false }) := by
    simp [keys, step, hsequence]
  have hnumber : ∀ c ∈ s.numbers, (c.isDigit || c = ';') = true := fun c hc => by
    simpa using List.mem_takeWhile_imp hc
  have hnumbers := keys_numbers (d := { d with sequence := .control "", afterReturn := false }) hnumber rfl rfl
  have hending : (s.ending.isDigit || s.ending = ';') = false := s.not_number_ending
  have hplain : ∀ c ∈ s.rest.tail, ¬ Text.IsControl c := fun c hc => s.not_isControl_rest c (List.mem_of_mem_tail hc)
  have hlast := keys_plain (d := { d with sequence := .none, afterReturn := false }) rfl rfl hplain
  rw [s.text_eq, show ∀ cs, '\x1b' :: '[' :: cs = ['\x1b', '['] ++ cs from fun _ => rfl, keys_append, hopened]
  dsimp only
  rw [keys_append, hnumbers, keys]
  simp [step, hending, hlast, hsequence]

/-- The keys of a control sequence, however its bytes are cut into chunks: one that is no text, and the text that the
decoder makes of what comes behind the numbers and one more character. It is the only key exactly if the sequence has
no other parameters than numbers and no intermediate characters. -/
theorem feeds_controlSequence (s : ControlSequence) {d : Decoder} (hsequence : d.sequence = .none)
    (hbytes : d.bytes = []) {chunks : List (List UInt8)}
    (hchunks : chunks.flatten = s.text.flatMap String.utf8EncodeChar) :
    let (ks, d') := d.feeds chunks
    let k := Sequence.controlKey (String.ofList s.numbers) s.ending
    Text.pieces s.text = [.code s.text] ∧ d' = {} ∧ k.isText = false ∧
      Key.joinText ks = k :: typed s.rest.tail ∧
      ((∃ l, ks = [l] ∧ l.isText = false ∧ l.sequence.toList = s.text) ↔
        '?' ∉ s.parameters ∧ s.intermediates = []) := by
  have hheld : Text.Utf8.decode d.bytes = ([], d.bytes) := by
    rw [hbytes]
    exact Text.Utf8.decode_of_none rfl
  have hk : (Sequence.controlKey (String.ofList s.numbers) s.ending).isText = false :=
    decide_eq_false (Sequence.name_controlKey _ _)
  have hfeeds := d.feeds_eq_feed hheld chunks
  rw [hchunks, feed_eq, hbytes, List.nil_append, Text.Utf8.decode_encode, keys_controlSequence s hsequence,
    Key.joinText_cons_typed hk] at hfeeds
  obtain ⟨hkeys, hleft⟩ := Prod.mk.inj hfeeds
  refine ⟨s.pieces_text, hleft.trans ?_, hk, hkeys, ?_⟩
  · rw [hsequence]
  · rw [← s.tail_rest_eq_nil]
    constructor
    · rintro ⟨l, hl, -⟩
      rw [hl] at hkeys
      obtain ⟨-, hnone⟩ := List.cons.inj hkeys
      cases htail : s.rest.tail with
      | nil => rfl
      | cons c cs =>
          rw [htail] at hnone
          cases hnone
    · intro hnone
      refine ⟨_, Key.eq_of_joinText_eq hk (by rw [hkeys, hnone]; rfl), hk, ?_⟩
      rw [s.text_eq, hnone]
      simp [Sequence.controlKey, Key.ofSequence]

/-- An arrow that is held with the control key, in three chunks. -/
theorem feeds_controlSequence_arrow :
    let s : ControlSequence := ⟨['1', ';', '5'], [], 'D', by simp [Text.Escape.isParameter], by simp, by decide⟩
    let chunks : List (List UInt8) := [[0x1b], [0x5b, 0x31, 0x3b], [0x35, 0x44]]
    ({} : Decoder).sequence = .none ∧ ({} : Decoder).bytes = [] ∧
      chunks.flatten = s.text.flatMap String.utf8EncodeChar ∧
      let (ks, d') := feeds {} chunks
      let k := Sequence.controlKey (String.ofList s.numbers) s.ending
      Text.pieces s.text = [.code s.text] ∧ d' = {} ∧ k.isText = false ∧
        Key.joinText ks = k :: typed s.rest.tail ∧
        ((∃ l, ks = [l] ∧ l.isText = false ∧ l.sequence.toList = s.text) ↔
          '?' ∉ s.parameters ∧ s.intermediates = []) := by
  intro s chunks
  have hchunks : chunks.flatten = s.text.flatMap String.utf8EncodeChar := by decide +kernel
  exact ⟨rfl, rfl, hchunks, feeds_controlSequence s rfl rfl hchunks⟩

/-- The sequence that shows the cursor is one escape sequence, and a decoder types the end of it. -/
theorem shown_cursor_typed :
    let s : ControlSequence := ⟨['?', '2', '5'], [], 'h', by simp [Text.Escape.isParameter], by simp, by decide⟩
    Text.pieces s.text = [.code s.text] ∧
      (feed {} (s.text.flatMap String.utf8EncodeChar)).1 =
        [{ name := .unknown, sequence := "\x1b[?" }, .text "25h"] := by
  refine ⟨ControlSequence.pieces_text _, ?_⟩
  decide +kernel

end Decoder

end ScriptRepl.Console
