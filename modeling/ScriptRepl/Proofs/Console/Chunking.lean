import ScriptRepl.Console.Decoder

/-! Keys do not depend on where the input is cut into chunks. What a chunk ends in the middle of is part of the state:
the bytes of a character, the beginning of an escape sequence, a carriage return. -/
namespace ScriptRepl

namespace Text.Utf8

/-- What is read of some bytes is read of them whatever comes behind them. -/
theorem within_append {bits low high more : Nat} {bs rest : List UInt8} {c : Char}
    (h : within bits low high more bs = some (c, rest)) (later : List UInt8) :
    within bits low high more (bs ++ later) = some (c, rest ++ later) := by
  induction bs generalizing bits low high more with
  | nil =>
      rw [within] at h
      cases h
  | cons b bs ih =>
      rw [List.cons_append, within]
      rw [within] at h
      split at h
      · rename_i hbounds
        rw [if_pos hbounds]
        cases more with
        | zero =>
            obtain ⟨rfl, rfl⟩ := Prod.mk.inj (Option.some.inj h)
            rfl
        | succ more => exact ih h
      · rename_i hbounds
        rw [if_neg hbounds]
        obtain ⟨rfl, rfl⟩ := Prod.mk.inj (Option.some.inj h)
        rfl

theorem front_append {bs rest : List UInt8} {c : Char} (h : front bs = some (c, rest)) (later : List UInt8) :
    front (bs ++ later) = some (c, rest ++ later) := by
  cases bs with
  | nil => cases h
  | cons b bs =>
      rw [List.cons_append, front]
      rw [front] at h
      split at h
      · obtain ⟨rfl, rfl⟩ := Prod.mk.inj (Option.some.inj h)
        rfl
      · exact within_append h later

theorem decode_append (a b : List UInt8) :
    decode (a ++ b) =
      ((decode a).1 ++ (decode ((decode a).2 ++ b)).1, (decode ((decode a).2 ++ b)).2) := by
  induction hlength : a.length using Nat.strongRecOn generalizing a with
  | ind n ih =>
      cases hfront : front a with
      | none => rw [decode_of_none hfront, List.nil_append]
      | some first =>
          obtain ⟨c, rest⟩ := first
          have hshorter : rest.length < n := hlength ▸ length_lt_of_front hfront
          rw [decode_of_some hfront, decode_of_some (front_append hfront b), ih rest.length hshorter rest rfl,
            List.cons_append]

/-- The bytes that are held back give no character. -/
theorem decode_held (bytes : List UInt8) : decode (decode bytes).2 = ([], (decode bytes).2) := by
  induction hlength : bytes.length using Nat.strongRecOn generalizing bytes with
  | ind n ih =>
      cases hfront : front bytes with
      | none =>
          rw [decode_of_none hfront]
          exact decode_of_none hfront
      | some first =>
          obtain ⟨c, rest⟩ := first
          rw [decode_of_some hfront]
          exact ih rest.length (hlength ▸ length_lt_of_front hfront) rest rfl

end Text.Utf8

namespace Console

namespace Key

/-- A key in front of keys that are joined. -/
def joinOne (k : Key) : List Key → List Key
  | [] => [k]
  | l :: ls => if k.isText && l.isText then text (k.sequence ++ l.sequence) :: ls else k :: l :: ls

theorem joinText_cons (k : Key) (ks : List Key) : joinText (k :: ks) = joinOne k (joinText ks) := by
  rw [joinText]
  cases joinText ks <;> rfl

@[simp] theorem isText_text (s : String) : (text s).isText = true :=
  rfl

@[simp] theorem sequence_text (s : String) : (text s).sequence = s :=
  rfl

/-- Three neighbours that insert text are one key, whichever two are joined first. -/
theorem joinOne_text {k l : Key} (hk : k.isText = true) (hl : l.isText = true) (ks : List Key) :
    joinOne (text (k.sequence ++ l.sequence)) ks = joinOne k (joinOne l ks) := by
  cases ks with
  | nil => simp [joinOne, hk, hl]
  | cons m ms =>
      cases hm : m.isText with
      | true => simp [joinOne, hk, hl, hm, String.append_assoc]
      | false => simp [joinOne, hk, hl, hm]

theorem joinText_joinOne (k : Key) (ks : List Key) : joinText (joinOne k ks) = joinOne k (joinText ks) := by
  cases ks with
  | nil => rfl
  | cons l ls =>
      rw [joinOne]
      split
      · rename_i htext
        rw [Bool.and_eq_true] at htext
        rw [joinText_cons, joinText_cons, joinOne_text htext.1 htext.2]
      · rw [joinText_cons]

/-- What holds of keys holds of the joined keys too, if it passes from two texts to both in one. -/
theorem forall_joinText {p : Key → Prop}
    (hjoin : ∀ k l : Key, k.isText = true → l.isText = true → p k → p l → p (text (k.sequence ++ l.sequence)))
    {ks : List Key} (h : ∀ k ∈ ks, p k) : ∀ k ∈ joinText ks, p k := by
  induction ks with
  | nil => exact h
  | cons k ks ih =>
      obtain ⟨hk, hks⟩ := List.forall_mem_cons.mp h
      have hrest := ih hks
      rw [joinText_cons]
      generalize joinText ks = ls at hrest
      cases ls with
      | nil => exact List.forall_mem_singleton.mpr hk
      | cons l ls =>
          obtain ⟨hl, hls⟩ := List.forall_mem_cons.mp hrest
          rw [joinOne]
          split
          · rename_i htext
            rw [Bool.and_eq_true] at htext
            exact List.forall_mem_cons.mpr ⟨hjoin k l htext.1 htext.2 hk hl, hls⟩
          · exact List.forall_mem_cons.mpr ⟨hk, hrest⟩

theorem joinText_append (ks ls : List Key) : joinText (ks ++ ls) = ks.foldr joinOne (joinText ls) := by
  induction ks with
  | nil => rfl
  | cons k ks ih => rw [List.cons_append, joinText_cons, ih, List.foldr_cons]

theorem joinText_append_joinText (ks ls : List Key) : joinText (ks ++ joinText ls) = joinText (ks ++ ls) := by
  have hjoined : joinText (joinText ls) = joinText ls := by
    induction ls with
    | nil => rfl
    | cons l ls ih => rw [joinText_cons, joinText_joinOne, ih]
  rw [joinText_append, joinText_append, hjoined]

theorem joinText_joinText_append (ks ls : List Key) : joinText (joinText ks ++ ls) = joinText (ks ++ ls) := by
  have hfold : ∀ (k : Key) (ms : List Key), joinText (joinOne k ms ++ ls) = joinOne k (joinText (ms ++ ls)) := by
    intro k ms
    cases ms with
    | nil => exact joinText_cons k ls
    | cons m ms =>
        rw [joinOne]
        split
        · rename_i htext
          rw [Bool.and_eq_true] at htext
          rw [List.cons_append, List.cons_append, joinText_cons, joinText_cons, joinOne_text htext.1 htext.2]
        · rw [List.cons_append, joinText_cons]
  induction ks with
  | nil => rfl
  | cons k ks ih => rw [joinText_cons, hfold, ih, List.cons_append, joinText_cons]

/-! ### Keys that are no text -/

theorem name_ofControl? {c : Char} {k : Key} (h : ofControl? c = some k) : k.name ≠ .text := by
  unfold ofControl? at h
  dsimp only at h
  repeat' split at h
  all_goals cases h
  all_goals simp [control]

theorem name_ofAlt (c : Char) : (ofAlt c).name ≠ .text := by
  have hname : (ofAlt c).name =
      ((ofControl? c).getD { name := .char c, sequence := "", shift := c.isUpper }).name := rfl
  rw [hname]
  cases h : ofControl? c with
  | none => simp
  | some k => exact name_ofControl? h

end Key

namespace Sequence

theorem numbered_ne_text (n : Nat) : numbered n ≠ .text := by
  unfold numbered
  split <;> simp

theorem lettered_ne_text (c : Char) : lettered c ≠ .text := by
  unfold lettered
  split <;> simp

theorem name_controlKey (parameters : String) (last : Char) : (controlKey parameters last).name ≠ .text := by
  unfold controlKey
  dsimp only [Key.ofSequence]
  split
  · exact numbered_ne_text _
  · exact lettered_ne_text _

end Sequence

namespace Decoder

/-- Chunks in turn. -/
def feeds (d : Decoder) : List (List UInt8) → List Key × Decoder
  | [] => ([], d)
  | chunk :: chunks =>
    let (ks, d) := d.feed chunk
    let (ls, d) := d.feeds chunks
    (ks ++ ls, d)

/-- Characters are read without a look at the bytes that are held back. -/
theorem step_withBytes (d : Decoder) (bytes : List UInt8) (c : Char) :
    { d with bytes }.step c = ((d.step c).1, { (d.step c).2 with bytes }) := by
  obtain ⟨sequence, held, afterReturn⟩ := d
  unfold step
  cases sequence with
  | none =>
      dsimp only
      split
      · rfl
      · split
        · split <;> rfl
        · rfl
  | opened =>
      dsimp only
      repeat' split
      all_goals rfl
  | control parameters =>
      dsimp only
      split <;> rfl
  | application => rfl

theorem keys_withBytes (d : Decoder) (bytes : List UInt8) (cs : List Char) :
    { d with bytes }.keys cs = ((d.keys cs).1, { (d.keys cs).2 with bytes }) := by
  induction cs generalizing d with
  | nil => rfl
  | cons c cs ih =>
      simp only [keys, step_withBytes]
      rw [ih (d.step c).2]

theorem feed_eq (d : Decoder) (chunk : List UInt8) :
    d.feed chunk =
      (Key.joinText (d.keys (Text.Utf8.decode (d.bytes ++ chunk)).1).1,
        { (d.keys (Text.Utf8.decode (d.bytes ++ chunk)).1).2 with
          bytes := (Text.Utf8.decode (d.bytes ++ chunk)).2 }) := by
  simp only [feed, keys_withBytes]

/-- Two chunks, or one that is both. -/
theorem feed_append (d : Decoder) (a b : List UInt8) :
    d.feed (a ++ b) =
      (Key.joinText ((d.feed a).1 ++ ((d.feed a).2.feed b).1), ((d.feed a).2.feed b).2) := by
  have hbytes := Text.Utf8.decode_append (d.bytes ++ a) b
  rw [List.append_assoc] at hbytes
  simp only [feed_eq, hbytes, keys_append, keys_withBytes, Key.joinText_append_joinText,
    Key.joinText_joinText_append]

/-- No chunk at all: what is held back stays so. -/
theorem feed_nil (d : Decoder) (h : Text.Utf8.decode d.bytes = ([], d.bytes)) : d.feed [] = ([], d) := by
  rw [feed_eq, List.append_nil, h]
  rfl

theorem decode_bytes_feed (d : Decoder) (chunk : List UInt8) :
    Text.Utf8.decode (d.feed chunk).2.bytes = ([], (d.feed chunk).2.bytes) := by
  rw [feed_eq]
  exact Text.Utf8.decode_held _

/-- Chunks give the keys that their bytes give in one chunk, and leave the decoder as these do. -/
theorem feeds_eq_feed (d : Decoder) (h : Text.Utf8.decode d.bytes = ([], d.bytes)) (chunks : List (List UInt8)) :
    (Key.joinText (d.feeds chunks).1, (d.feeds chunks).2) = d.feed chunks.flatten := by
  induction chunks generalizing d with
  | nil => rw [List.flatten_nil, d.feed_nil h, feeds, Key.joinText]
  | cons chunk chunks ih =>
      have hrest := ih (d.feed chunk).2 (d.decode_bytes_feed chunk)
      rw [List.flatten_cons, feed_append, ← hrest, Key.joinText_append_joinText]
      rfl

/-- However the bytes are cut into chunks, they give the same keys, up to where the text to insert is cut, and the
same state. -/
theorem feeds_of_flatten_eq {chunks chunks' : List (List UInt8)} (h : chunks.flatten = chunks'.flatten) :
    Key.joinText (feeds {} chunks).1 = Key.joinText (feeds {} chunks').1 ∧ (feeds {} chunks).2 = (feeds {} chunks').2 := by
  have hfresh : Text.Utf8.decode ({} : Decoder).bytes = ([], ({} : Decoder).bytes) := Text.Utf8.decode_of_none rfl
  have hboth : (Key.joinText (feeds {} chunks).1, (feeds {} chunks).2) =
      (Key.joinText (feeds {} chunks').1, (feeds {} chunks').2) := by
    rw [feeds_eq_feed {} hfresh, feeds_eq_feed {} hfresh, h]
  exact Prod.mk.inj hboth

/-- A character cut in two, an escape sequence and a carriage return with its line feed, in three chunks or in one. -/
theorem feeds_of_flatten_eq_cut :
    [[0x61, 0xe2], [0x82, 0xac, 0x1b, 0x5b], [0x41, 0x0d], [0x0a, 0xff]].flatten =
        [[0x61, 0xe2, 0x82, 0xac, 0x1b, 0x5b, 0x41, 0x0d, 0x0a, 0xff]].flatten ∧
      Key.joinText (feeds {} [[0x61, 0xe2], [0x82, 0xac, 0x1b, 0x5b], [0x41, 0x0d], [0x0a, 0xff]]).1 =
        Key.joinText (feeds {} [[0x61, 0xe2, 0x82, 0xac, 0x1b, 0x5b, 0x41, 0x0d, 0x0a, 0xff]]).1 ∧
      (feeds {} [[0x61, 0xe2], [0x82, 0xac, 0x1b, 0x5b], [0x41, 0x0d], [0x0a, 0xff]]).2 =
        (feeds {} [[0x61, 0xe2, 0x82, 0xac, 0x1b, 0x5b, 0x41, 0x0d, 0x0a, 0xff]]).2 :=
  ⟨rfl, feeds_of_flatten_eq rfl⟩

end Decoder

end Console

end ScriptRepl
