import ScriptRepl.Console.Action
import ScriptRepl.Proofs.Console.Typing

/-! Which actions can be asked for with the keyboard. The keys that have a meaning are in one table and those that a
decoder can give in another one; an action needs a key that is in both. -/
namespace ScriptRepl.Console

open String (utf8EncodeChar)

/-- A key that a decoder gives for some bytes and pauses. -/
def Key.Sendable (k : Key) : Prop :=
  ∃ calls, k ∈ (Decoder.exchanges {} calls).1.flatMap Prod.snd

/-! ### Keys that can be sent -/

namespace Key

theorem sendable_of_keys (cs : List Char) {k : Key} (h : k ∈ joinText (({} : Decoder).keys cs).1) : k.Sendable := by
  refine ⟨[.feed (cs.flatMap utf8EncodeChar)], ?_⟩
  simpa [Decoder.exchanges, Decoder.call, Decoder.feed_eq, Text.Utf8.decode_encode] using h

theorem sendable_text {s : String} (hs : s ≠ "") (h : ∀ c ∈ s.toList, ¬ Text.IsControl c) : (text s).Sendable := by
  refine sendable_of_keys s.toList ?_
  rw [Decoder.keys_plain rfl rfl h]
  obtain ⟨c, cs, hcons⟩ := List.exists_cons_of_ne_nil (fun hnil => hs (String.toList_eq_nil_iff.mp hnil))
  rw [hcons, joinText_singletons, ← hcons, String.ofList_toList]
  exact List.mem_singleton.mpr rfl

theorem sendable_of_ofControl? {c : Char} {k : Key} (h : ofControl? c = some k) : k.Sendable := by
  have hescape : c ≠ '\x1b' := by
    rintro rfl
    cases h
  refine sendable_of_keys [c] ?_
  simp [Decoder.keys, Decoder.step, h, hescape, joinText]

theorem sendable_ofAlt {c : Char} (h : c ∉ ['[', 'O', '\x1b']) : (ofAlt c).Sendable := by
  simp only [List.mem_cons, List.not_mem_nil, or_false, not_or] at h
  refine sendable_of_keys ['\x1b', c] ?_
  simp [Decoder.keys, Decoder.step, h, joinText]

/-- Without modifiers, as terminals send the keys beside the letters. -/
theorem sendable_lettered {c : Char} (h : (c.isDigit || c = ';') = false) : (Sequence.controlKey "" c).Sendable := by
  refine sendable_of_keys ['\x1b', '[', c] ?_
  simp [Decoder.keys, Decoder.step, h, joinText]

end Key

/-! ### Keys that cannot -/

namespace Key

theorem ofControl?_ne_bracket {c : Char} {k : Key} (h : ofControl? c = some k) : k.name ≠ .char '[' := by
  have hletters : ∀ n < 0x1b, Char.ofNat (n + 0x60) ≠ '[' := by decide
  unfold ofControl? at h
  dsimp only at h
  repeat' split at h
  all_goals cases h
  all_goals simp only [control, ne_eq, KeyName.char.injEq, reduceCtorEq, not_false_eq_true]
  -- a letter together with control
  rename_i hletter
  have hbounds : 1 ≤ c.toNat ∧ c.toNat ≤ 26 := by simpa [Char.le_def, UInt32.le_iff_toNat_le] using hletter
  exact hletters c.toNat (by omega)

theorem ofAlt_ne_bracket {c : Char} (h : c ≠ '[') : (ofAlt c).name ≠ .char '[' := by
  have hname : (ofAlt c).name =
      ((ofControl? c).getD { name := .char c, sequence := "", shift := c.isUpper }).name := rfl
  rw [hname]
  cases hcontrol : ofControl? c with
  | none => simpa using h
  | some k => exact ofControl?_ne_bracket hcontrol

end Key

namespace Sequence

theorem numbered_ne_char (n : Nat) (c : Char) : numbered n ≠ .char c := by
  unfold numbered
  split <;> simp

theorem lettered_ne_char (last c : Char) : lettered last ≠ .char c := by
  unfold lettered
  split <;> simp

theorem controlKey_ne_char (parameters : String) (last c : Char) : (controlKey parameters last).name ≠ .char c := by
  unfold controlKey
  dsimp only [Key.ofSequence]
  split
  · exact numbered_ne_char _ _
  · exact lettered_ne_char _ _

end Sequence

namespace Decoder

section

variable {p : Key → Prop}

theorem forall_keys (hstep : ∀ d c, ∀ k ∈ (step d c).1, p k) (d : Decoder) (cs : List Char) :
    ∀ k ∈ (d.keys cs).1, p k := by
  induction cs generalizing d with
  | nil => simp [keys]
  | cons c cs ih =>
      intro k hk
      rcases List.mem_append.mp hk with hk | hk
      · exact hstep d c k (Option.mem_toList.mp hk)
      · exact ih _ k hk

theorem forall_call (hstep : ∀ d c, ∀ k ∈ (step d c).1, p k) (htext : ∀ s, p (.text s))
    (hescape : p { name := .escape, sequence := "\x1b" }) (d : Decoder) (c : Call) : ∀ k ∈ (d.call c).1, p k := by
  cases c with
  | feed chunk =>
      rw [call, feed_eq]
      exact Key.forall_joinText (fun _ _ _ _ _ _ => htext _) (forall_keys hstep _ _)
  | flush =>
      rw [call, flush]
      cases d.sequence with
      | none => simp
      | opened => exact List.forall_mem_singleton.mpr hescape
      | control parameters => exact List.forall_mem_singleton.mpr (htext _)
      | application => exact List.forall_mem_singleton.mpr (htext _)

/-- What holds of the key of each character, of all text, and of the escape key, holds of all keys. -/
theorem forall_exchanges (hstep : ∀ d c, ∀ k ∈ (step d c).1, p k) (htext : ∀ s, p (.text s))
    (hescape : p { name := .escape, sequence := "\x1b" }) (d : Decoder) (cs : List Call) :
    ∀ k ∈ (d.exchanges cs).1.flatMap Prod.snd, p k := by
  induction cs generalizing d with
  | nil => simp [exchanges]
  | cons c cs ih =>
      intro k hk
      rcases List.mem_append.mp hk with hk | hk
      · exact forall_call hstep htext hescape d c k hk
      · exact ih _ k hk

end

/-- Behind the escape character, `[` is the beginning of a sequence. -/
theorem step_ne_bracket (d : Decoder) (c : Char) : ∀ k ∈ (d.step c).1, k.name ≠ .char '[' := by
  unfold step
  cases d.sequence with
  | none =>
      dsimp only
      split
      · simp
      · split
        · rename_i hcontrol
          split
          · simp
          · simpa using Key.ofControl?_ne_bracket hcontrol
        · simp [Key.text]
  | opened =>
      dsimp only
      split
      · simp
      · rename_i hbracket
        repeat' split
        · simp
        · simp
        · simpa using Key.ofAlt_ne_bracket hbracket
  | control parameters =>
      dsimp only
      split
      · simp
      · simpa using Sequence.controlKey_ne_char parameters c '['
  | application => simpa [Sequence.applicationKey, Key.ofSequence] using Sequence.lettered_ne_char c '['

end Decoder

namespace Key

variable {k : Key}

theorem Sendable.ne_bracket (h : k.Sendable) : k.name ≠ .char '[' := by
  obtain ⟨calls, hk⟩ := h
  exact Decoder.forall_exchanges Decoder.step_ne_bracket (by simp [text]) (by simp) {} calls k hk

theorem Sendable.sent (h : k.Sendable) : k.Sent := by
  obtain ⟨calls, hk⟩ := h
  obtain ⟨x, hx, hkx⟩ := List.mem_flatMap.mp hk
  obtain ⟨_, _, _, _, _, hsent⟩ := Decoder.exchanges_tell Decoder.behind_nil (Text.Utf8.decode_of_none rfl) calls
  exact hsent x hx k hkx

/-! ### Actions -/

/-- What a key that is no character can mean. -/
def namedActions : List Action :=
  [.submit, .older, .newer, .left, .wordLeft, .right, .wordRight, .accept, .toStart, .toEnd, .deleteBackward,
    .deleteWordBackward, .deleteForward, .complete, .dismiss, .unsupported]

/-- A key inserts its text, or it is a character together with control or with alt, or it is another key. -/
theorem action_cases (k : Key) (context : KeyContext) :
    k.isText = true ∧ k.action context = .insert k.sequence ∨
      (∃ c, k.name = .char c ∧ k.ctrl = true ∧ k.alt = false ∧ k.action context = controlAction context c) ∨
      (∃ c, k.name = .char c ∧ k.action context = altAction c) ∨ k.action context ∈ namedActions := by
  have hnone : Action.unsupported ∈ namedActions := by decide
  unfold action
  cases hname : k.name with
  | text =>
      dsimp only
      split
      · exact .inl ⟨by simp [isText, hname], rfl⟩
      · exact .inr (.inr (.inr hnone))
  | char c =>
      cases hctrl : k.ctrl with
      | false =>
          cases k.alt with
          | false => exact .inr (.inr (.inr hnone))
          | true => exact .inr (.inr (.inl ⟨c, rfl, rfl⟩))
      | true =>
          cases halt : k.alt with
          | false => exact .inr (.inl ⟨c, rfl, rfl, rfl, rfl⟩)
          | true => exact .inr (.inr (.inr hnone))
  | _ =>
      refine .inr (.inr (.inr ?_))
      dsimp only
      repeat' split
      all_goals decide

variable {context : KeyContext}

/-- The letter together with the control key alone. -/
structure IsControl (k : Key) (c : Char) : Prop where
  name : k.name = .char c
  ctrl : k.ctrl = true
  alt : k.alt = false

/-- An action that only a letter with the control key can mean. -/
theorem action_control {a : Action} (htext : ∀ s, a ≠ .insert s) (halt : ∀ c, altAction c ≠ a)
    (hnamed : a ∉ namedActions) : k.action context = a ↔ ∃ c, k.IsControl c ∧ controlAction context c = a := by
  constructor
  · intro h
    rcases k.action_cases context with ⟨_, haction⟩ | ⟨c, hname, hctrl, hno, haction⟩ | ⟨c, _, haction⟩ | hother
    · exact absurd (h.symm.trans haction) (htext _)
    · exact ⟨c, ⟨hname, hctrl, hno⟩, haction.symm.trans h⟩
    · exact absurd (haction.symm.trans h) (halt c)
    · exact absurd (h ▸ hother) hnamed
  · rintro ⟨c, hk, rfl⟩
    simp [action, hk.name, hk.ctrl, hk.alt]

theorem altAction_ne {a : Action} (h : a ∉ [.wordLeft, .wordRight, .nextCandidate, .previousCandidate, .unsupported])
    (c : Char) : altAction c ≠ a := by
  rintro rfl
  unfold altAction at h
  split at h <;> simp at h

theorem name_of_previousCandidate (h : k.action context = .previousCandidate) : k.name = .char '[' := by
  rcases k.action_cases context with ⟨_, haction⟩ | ⟨c, _, _, _, haction⟩ | ⟨c, hname, haction⟩ | hnamed
  · rw [h] at haction
    cases haction
  · rw [h] at haction
    unfold controlAction at haction
    repeat' split at haction
    all_goals cases haction
  · rw [h] at haction
    unfold altAction at haction
    split at haction
    case h_4 => exact hname
    all_goals cases haction
  · rw [h] at hnamed
    exact absurd hnamed (by decide)

theorem text_of_insert {s : String} (h : k.action context = .insert s) : k.isText = true ∧ k.sequence = s := by
  rcases k.action_cases context with ⟨htext, haction⟩ | ⟨c, _, _, _, haction⟩ | ⟨c, hname, haction⟩ | hnamed
  · rw [h] at haction
    cases haction
    exact ⟨htext, rfl⟩
  · rw [h] at haction
    unfold controlAction at haction
    repeat' split at haction
    all_goals cases haction
  · rw [h] at haction
    unfold altAction at haction
    split at haction
    all_goals cases haction
  · simp [h, namedActions] at hnamed

/-- Something can be pressed for every action but one, and all that can be inserted are the texts without control
characters. -/
theorem sendable_action_iff {a : Action} :
    (∃ (k : Key) (context : KeyContext), k.Sendable ∧ k.action context = a) ↔
      a ≠ .previousCandidate ∧ ∀ s, a = .insert s → s ≠ "" ∧ ∀ c ∈ s.toList, ¬ Text.IsControl c := by
  constructor
  · rintro ⟨k, context, hk, rfl⟩
    refine ⟨fun hprevious => hk.ne_bracket (name_of_previousCandidate hprevious), fun s hs => ?_⟩
    obtain ⟨htext, rfl⟩ := text_of_insert hs
    exact ⟨hk.sent.sequence, hk.sent.text htext⟩
  · rintro ⟨hother, hinsert⟩
    cases a with
    | insert s =>
        obtain ⟨hs, hplain⟩ := hinsert s rfl
        exact ⟨_, {}, sendable_text hs hplain, rfl⟩
    | left => exact ⟨_, {}, sendable_lettered (c := 'D') (by decide), rfl⟩
    | right => exact ⟨_, {}, sendable_lettered (c := 'C') (by decide), rfl⟩
    | wordLeft => exact ⟨_, {}, sendable_ofAlt (c := 'b') (by decide), rfl⟩
    | wordRight => exact ⟨_, {}, sendable_ofAlt (c := 'f') (by decide), rfl⟩
    | toStart => exact ⟨_, {}, sendable_lettered (c := 'H') (by decide), rfl⟩
    | toEnd => exact ⟨_, {}, sendable_lettered (c := 'F') (by decide), rfl⟩
    | older => exact ⟨_, {}, sendable_lettered (c := 'A') (by decide), rfl⟩
    | newer => exact ⟨_, {}, sendable_lettered (c := 'B') (by decide), rfl⟩
    | search => exact ⟨_, {}, sendable_of_ofControl? (c := '\x12') rfl, rfl⟩
    | deleteBackward => exact ⟨_, {}, sendable_of_ofControl? (c := '\x7f') rfl, rfl⟩
    | deleteForward => exact ⟨_, {}, sendable_of_ofControl? (c := '\x04') rfl, rfl⟩
    | deleteWordBackward => exact ⟨_, {}, sendable_of_ofControl? (c := '\x17') rfl, rfl⟩
    | deleteToEnd => exact ⟨_, {}, sendable_of_ofControl? (c := '\x0b') rfl, rfl⟩
    | deleteToStart => exact ⟨_, {}, sendable_of_ofControl? (c := '\x15') rfl, rfl⟩
    | complete => exact ⟨_, {}, sendable_of_ofControl? (c := '\t') rfl, rfl⟩
    | accept =>
        exact ⟨_, { atEnd := true, hasCompletion := true }, sendable_lettered (c := 'C') (by decide), rfl⟩
    | nextCandidate => exact ⟨_, {}, sendable_ofAlt (c := ']') (by decide), rfl⟩
    | previousCandidate => exact absurd rfl hother
    | dismiss =>
        exact ⟨{ name := .escape, sequence := "\x1b" }, { hasSuffix := true },
          ⟨[.feed [0x1b], .flush], by decide +kernel⟩, rfl⟩
    | submit => exact ⟨_, {}, sendable_of_ofControl? (c := '\r') rfl, rfl⟩
    | clearScreen => exact ⟨_, {}, sendable_of_ofControl? (c := '\x0c') rfl, rfl⟩
    | interrupt => exact ⟨_, {}, sendable_of_ofControl? (c := '\x03') rfl, rfl⟩
    | endOfInput => exact ⟨_, { isEmpty := true }, sendable_of_ofControl? (c := '\x04') rfl, rfl⟩
    | unsupported => exact ⟨_, {}, sendable_of_ofControl? (c := '\x00') rfl, rfl⟩

/-- There is a key for the previous candidate, and no bytes and pauses give a key that means it. -/
theorem previousCandidate_not_sent :
    (ofAlt '[').action {} = .previousCandidate ∧
      ¬ ∃ (k : Key) (context : KeyContext), k.Sendable ∧ k.action context = .previousCandidate := by
  refine ⟨rfl, ?_⟩
  rintro ⟨k, context, hk, hprevious⟩
  exact hk.ne_bracket (name_of_previousCandidate hprevious)

end Key

/-! ### Searches -/

namespace Engine

/-- Only keys that insert text add to what is sought, and only the key for the end of the input leaves. -/
theorem searchKey_cases (k : Key) (nothingTyped : Bool) :
    k.isText = true ∧ searchKey k nothingTyped = .add k.sequence ∨
      k.name = .char 'd' ∧ k.ctrl = true ∧ k.alt = false ∧ nothingTyped = true ∧ searchKey k nothingTyped = .leave ∨
      searchKey k nothingTyped ∈ [.remove, .further, .cancel, .accept] := by
  unfold searchKey
  cases hname : k.name with
  | text =>
      dsimp only
      split
      · exact .inl ⟨by simp [Key.isText, hname], rfl⟩
      · exact .inr (.inr (by decide))
  | char c =>
      dsimp only
      split
      · exact .inr (.inr (by decide))
      · split
        · exact .inr (.inr (by decide))
        · split
          · rename_i hleave
            simp only [Bool.and_eq_true, Bool.not_eq_true', decide_eq_true_eq] at hleave
            obtain ⟨⟨⟨hctrl, halt⟩, rfl⟩, hnothing⟩ := hleave
            exact .inr (.inl ⟨rfl, hctrl, halt, hnothing, rfl⟩)
          · exact .inr (.inr (by decide))
  | _ => exact .inr (.inr (by simp))

theorem text_of_add {k : Key} {nothingTyped : Bool} {s : String} (h : searchKey k nothingTyped = .add s) :
    k.isText = true ∧ k.sequence = s := by
  rcases searchKey_cases k nothingTyped with ⟨htext, hadd⟩ | ⟨_, _, _, _, hleave⟩ | hother
  · rw [h] at hadd
    cases hadd
    exact ⟨htext, rfl⟩
  · rw [h] at hleave
    cases hleave
  · simp [h] at hother

end Engine

end ScriptRepl.Console
