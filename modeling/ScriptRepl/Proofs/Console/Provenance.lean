import Mathlib.Data.List.Forall2
import ScriptRepl.Proofs.Console.Chunking
import ScriptRepl.Proofs.Text.Lossy

/-! What becomes of the characters that come. Each of them is part of one key, or waits for the rest of an escape
sequence; left out are only a line feed that belongs to the carriage return before it and the escape character of a
sequence that is given up. -/
namespace ScriptRepl

/-- The control characters of ASCII. -/
def Text.IsControl (c : Char) : Prop :=
  c.toNat < 0x20 ∨ c.toNat = 0x7f

instance : DecidablePred Text.IsControl :=
  fun _ => inferInstanceAs (Decidable (_ ∨ _))

namespace Console

namespace Sequence

/-- The characters of an escape sequence that have been read. -/
def pending : Sequence → List Char
  | none => []
  | opened => ['\x1b']
  | control parameters => '\x1b' :: '[' :: parameters.toList
  | application => ['\x1b', 'O']

def IsParameter (c : Char) : Prop :=
  c.isDigit = true ∨ c = ';'

end Sequence

/-- Characters that come behind each other, and the key they are, if any. -/
inductive Piece where
  | key (k : Key)
  /-- A line feed that belongs to the carriage return before it. -/
  | lineFeed
  /-- An escape character and what is inserted without it. -/
  | givenUp (rest : String)
  deriving DecidableEq

namespace Piece

def key? : Piece → Option Key
  | key k => some k
  | lineFeed => none
  | givenUp rest => some (.text rest)

/-- The characters that no key shows. -/
def dropped : Piece → List Char
  | key _ => []
  | lineFeed => ['\n']
  | givenUp _ => ['\x1b']

def kept (p : Piece) : List Char :=
  p.key?.elim [] fun k => k.sequence.toList

/-- All characters of the piece. -/
def read (p : Piece) : List Char :=
  p.dropped ++ p.kept

/-- A carriage return that is a key of its own; behind the escape character it is a key with alt instead. -/
def isReturn : Piece → Bool
  | key k => k.name = .enter && k.sequence = "\r"
  | _ => false

def isGivenUp : Piece → Bool
  | givenUp _ => true
  | _ => false

end Piece

/-- A line feed is dropped exactly if it comes directly behind a carriage return that is a key. -/
def DropsLineFeeds (story : List Piece) : Prop :=
  ∀ before p after, story = before ++ p :: after →
    (p = .lineFeed ↔ p.read.head? = some '\n' ∧ before.getLast?.any Piece.isReturn = true)

theorem DropsLineFeeds.concat {story : List Piece} (h : DropsLineFeeds story) {p : Piece}
    (hp : p = .lineFeed ↔ p.read.head? = some '\n' ∧ story.getLast?.any Piece.isReturn = true) :
    DropsLineFeeds (story ++ [p]) := by
  intro before q after heq
  rcases after.eq_nil_or_concat with rfl | ⟨after', r, rfl⟩
  · obtain ⟨rfl, hlast⟩ := List.append_inj' heq rfl
    cases hlast
    exact hp
  · have hconcat : story ++ [p] = (before ++ q :: after') ++ [r] := by
      rw [heq, List.concat_eq_append, List.append_assoc, List.cons_append]
    exact h before q after' (List.append_inj' hconcat rfl).1

theorem DropsLineFeeds.key {story : List Piece} (h : DropsLineFeeds story) {k : Key}
    (hk : k.sequence.toList.head? = some '\n' → story.getLast?.any Piece.isReturn = false) :
    DropsLineFeeds (story ++ [.key k]) := by
  refine h.concat ⟨nofun, fun ⟨hread, hlast⟩ => ?_⟩
  have hnone := hk hread
  rw [hlast] at hnone
  cases hnone

namespace Key

/-- A key was sent as some characters, and what it inserts holds no control characters. -/
structure Sent (k : Key) : Prop where
  sequence : k.sequence ≠ ""
  text : k.isText = true → ∀ c ∈ k.sequence.toList, ¬ Text.IsControl c

/-- Keys that insert nothing. -/
theorem Sent.of_name {k : Key} (hsequence : k.sequence ≠ "") (h : k.name ≠ .text) : k.Sent where
  sequence := hsequence
  text htext := absurd (of_decide_eq_true htext) h

theorem ofControl?_eq_some {c : Char} {k : Key} (h : ofControl? c = some k) :
    k.sequence = c.toString ∧ (k.name = .enter ↔ c = '\r') := by
  unfold ofControl? at h
  dsimp only at h
  repeat' split at h
  all_goals cases h
  all_goals simp_all [control]

theorem not_isControl_of_none {c : Char} (h : ofControl? c = none) (hescape : c ≠ '\x1b') : ¬ Text.IsControl c := by
  have hlow : ∀ n < 0x20, n ≠ 0x1b → ofControl? (Char.ofNat n) ≠ none := by decide
  have hdelete : ofControl? (Char.ofNat 0x7f) ≠ none := by decide
  rintro (hsmall | heq)
  · refine hlow c.toNat hsmall ?_ ?_
    · intro heq
      exact hescape (Char.toNat_inj.mp heq)
    · rw [Char.ofNat_toNat]
      exact h
  · rw [← heq, Char.ofNat_toNat] at hdelete
    exact hdelete h

theorem sent_text {s : String} (hs : s ≠ "") (h : ∀ c ∈ s.toList, ¬ Text.IsControl c) : (text s).Sent where
  sequence := hs
  text _ := h

theorem ofAlt_sequence (c : Char) : (ofAlt c).sequence = String.ofList ['\x1b', c] :=
  rfl

theorem sent_ofAlt (c : Char) : (ofAlt c).Sent :=
  .of_name (by simp [ofAlt_sequence]) (name_ofAlt c)

theorem sent_joinText {ks : List Key} (h : ∀ k ∈ ks, k.Sent) : ∀ k ∈ joinText ks, k.Sent := by
  refine forall_joinText (fun k l hk hl hksent hlsent => ?_) h
  refine sent_text (by simp [hksent.sequence]) fun c hc => ?_
  rw [String.toList_append, List.mem_append] at hc
  exact hc.elim (hksent.text hk c) (hlsent.text hl c)

/-- The characters that keys were sent as. -/
def characters (ks : List Key) : List Char :=
  ks.flatMap fun k => k.sequence.toList

theorem characters_joinText (ks : List Key) : characters (joinText ks) = characters ks := by
  induction ks with
  | nil => rfl
  | cons k ks ih =>
      have hone : characters (joinOne k (joinText ks)) = k.sequence.toList ++ characters (joinText ks) := by
        cases joinText ks with
        | nil => rfl
        | cons l ls =>
            rw [joinOne]
            split
            · simp [characters]
            · rfl
      rw [joinText_cons, hone, ih]
      rfl

end Key

namespace Sequence

theorem sent_controlKey (parameters : String) (last : Char) : (controlKey parameters last).Sent :=
  .of_name (by simp [controlKey, Key.ofSequence]) (name_controlKey parameters last)

theorem sent_applicationKey (last : Char) : (applicationKey last).Sent :=
  .of_name (by simp [applicationKey, Key.ofSequence]) (lettered_ne_text last)

end Sequence

namespace Decoder

/-- What a decoder knows of the pieces that are behind it. -/
structure Behind (d : Decoder) (story : List Piece) : Prop where
  drops : DropsLineFeeds story
  between : d.sequence = .none → (d.afterReturn = true ↔ story.getLast?.any Piece.isReturn = true)
  within : d.sequence ≠ .none → d.afterReturn = false
  parameters : ∀ ps, d.sequence = .control ps → ∀ c ∈ ps.toList, Sequence.IsParameter c

theorem behind_nil : ({} : Decoder).Behind [] where
  drops before p after heq := by simp at heq
  between _ := by simp
  within _ := rfl
  parameters ps hps := nomatch hps

/-- Inside an escape sequence. -/
theorem behind_within {d : Decoder} {story : List Piece} (hdrops : DropsLineFeeds story) {s : Sequence}
    (hs : s ≠ .none) (hparameters : ∀ ps, s = .control ps → ∀ c ∈ ps.toList, Sequence.IsParameter c) :
    { d with sequence := s, afterReturn := false }.Behind story where
  drops := hdrops
  between h := absurd h hs
  within _ := rfl
  parameters := hparameters

/-- Directly behind a piece. -/
theorem behind_piece {d : Decoder} {story : List Piece} {p : Piece} (hdrops : DropsLineFeeds (story ++ [p]))
    {afterReturn : Bool} (h : afterReturn = p.isReturn) :
    { d with sequence := .none, afterReturn }.Behind (story ++ [p]) where
  drops := hdrops
  between _ := by simp [h]
  within h := absurd rfl h
  parameters ps hps := nomatch hps

/-- Characters become these keys and pieces. -/
structure Turns (d : Decoder) (cs : List Char) (ks : List Key) (d' : Decoder) (story : List Piece) : Prop where
  keys : ks = story.filterMap Piece.key?
  read : story.flatMap Piece.read ++ d'.sequence.pending = d.sequence.pending ++ cs
  whole : ∀ p ∈ story, p.isGivenUp = false
  sent : ∀ k ∈ ks, k.Sent

/-- A character that is part of an escape sequence so far. -/
theorem turns_none {d d' : Decoder} {c : Char} (h : d'.sequence.pending = d.sequence.pending ++ [c]) :
    Turns d [c] [] d' [] where
  keys := rfl
  read := h
  whole := nofun
  sent := nofun

/-- A character that completes a key. -/
theorem turns_key {d d' : Decoder} {c : Char} {k : Key} (hsent : k.Sent)
    (h : k.sequence.toList ++ d'.sequence.pending = d.sequence.pending ++ [c]) : Turns d [c] [k] d' [.key k] where
  keys := rfl
  read := by simpa [Piece.read, Piece.dropped, Piece.kept, Piece.key?] using h
  whole p hp := by
    rw [List.mem_singleton.mp hp]
    rfl
  sent l hl := by rwa [List.mem_singleton.mp hl]

theorem turns_trans {d d' d'' : Decoder} {cs cs' : List Char} {ks ks' : List Key} {story story' : List Piece}
    (h : Turns d cs ks d' story) (h' : Turns d' cs' ks' d'' story') :
    Turns d (cs ++ cs') (ks ++ ks') d'' (story ++ story') where
  keys := by rw [h.keys, h'.keys, List.filterMap_append]
  read := by rw [List.flatMap_append, List.append_assoc, h'.read, ← List.append_assoc, h.read, List.append_assoc]
  whole p hp := (List.mem_append.mp hp).elim (h.whole p) (h'.whole p)
  sent k hk := (List.mem_append.mp hk).elim (h.sent k) (h'.sent k)

/-- A key that begins with the escape character is no line feed. -/
theorem drops_escaped {story : List Piece} (h : DropsLineFeeds story) {k : Key} {cs : List Char}
    (hk : k.sequence.toList = '\x1b' :: cs) : DropsLineFeeds (story ++ [.key k]) := by
  refine h.key fun hhead => ?_
  rw [hk] at hhead
  cases hhead

theorem isReturn_escaped {k : Key} {cs : List Char} (hk : k.sequence.toList = '\x1b' :: cs) :
    (Piece.key k).isReturn = false := by
  have hne : k.sequence ≠ "\r" := by
    intro heq
    rw [heq] at hk
    cases hk
  simp [Piece.isReturn, hne]

/-- A character that completes an escape sequence. -/
theorem exists_turns_escaped {d : Decoder} {story : List Piece} (h : d.Behind story) {c : Char} {k : Key}
    (hsent : k.Sent) {cs : List Char} (hpending : d.sequence.pending = '\x1b' :: cs)
    (hread : k.sequence.toList = '\x1b' :: (cs ++ [c])) :
    ∃ added, Turns d [c] [k] { d with sequence := .none, afterReturn := false } added ∧
      { d with sequence := .none, afterReturn := false }.Behind (story ++ added) := by
  refine ⟨[.key k], turns_key hsent ?_, behind_piece (drops_escaped h.drops hread) (isReturn_escaped hread).symm⟩
  rw [hread, hpending, Sequence.pending, List.append_nil, List.cons_append]

/-- A character that the escape sequence goes on with. -/
theorem exists_turns_within {d : Decoder} {story : List Piece} (h : d.Behind story) {c : Char} {s : Sequence}
    (hs : s ≠ .none) (hpending : s.pending = d.sequence.pending ++ [c])
    (hparameters : ∀ ps, s = .control ps → ∀ c ∈ ps.toList, Sequence.IsParameter c) :
    ∃ added, Turns d [c] [] { d with sequence := s, afterReturn := false } added ∧
      { d with sequence := s, afterReturn := false }.Behind (story ++ added) := by
  refine ⟨[], turns_none hpending, ?_⟩
  rw [List.append_nil]
  exact behind_within h.drops hs hparameters

/-- A character outside of escape sequences. -/
theorem step_turns_none {d : Decoder} {story : List Piece} (h : d.Behind story) (hsequence : d.sequence = .none)
    (c : Char) :
    ∃ added, Turns d [c] (d.step c).1.toList (d.step c).2 added ∧ (d.step c).2.Behind (story ++ added) := by
  have hpending : d.sequence.pending = [] := by rw [hsequence]; rfl
  by_cases hescape : c = '\x1b'
  · have hstep : d.step c = (none, { d with sequence := .opened, afterReturn := false }) := by
      simp only [step, hsequence, if_pos hescape]
    rw [hstep]
    exact exists_turns_within h nofun (by rw [hpending, hescape]; rfl) nofun
  cases hcontrol : Key.ofControl? c with
  | none =>
      have hstep : d.step c = (some (.text c.toString), { d with sequence := .none, afterReturn := false }) := by
        simp only [step, hsequence, if_neg hescape, hcontrol]
      have hplain := Key.not_isControl_of_none hcontrol hescape
      have hsent : (Key.text c.toString).Sent := by
        refine Key.sent_text (by simp) fun d hd => ?_
        rwa [show d = c by simpa using hd]
      rw [hstep]
      refine ⟨[.key (.text c.toString)], turns_key hsent ?_, ?_⟩
      · rw [hpending]
        simp [Sequence.pending]
      · refine behind_piece (h.drops.key fun hhead => ?_) rfl
        have hfeed : c = '\n' := by simpa using hhead
        exact absurd (.inl (by rw [hfeed]; decide)) hplain
  | some k =>
      obtain ⟨hk, hname⟩ := Key.ofControl?_eq_some hcontrol
      by_cases hfeed : d.afterReturn = true ∧ c = '\n'
      · have hstep : d.step c = (none, { d with sequence := .none, afterReturn := false }) := by
          simp only [step, hsequence, if_neg hescape, hcontrol]
          rw [if_pos (by simpa using hfeed)]
        have hlast := (h.between hsequence).mp hfeed.1
        have hdrops := h.drops.concat (p := .lineFeed) ⟨fun _ => ⟨rfl, hlast⟩, fun _ => rfl⟩
        rw [hstep]
        refine ⟨[.lineFeed], ⟨rfl, ?_, ?_, nofun⟩, behind_piece hdrops rfl⟩
        · rw [hpending, hfeed.2]
          rfl
        · intro p hp
          rw [List.mem_singleton.mp hp]
          rfl
      · have hstep : d.step c = (some k, { d with sequence := .none, afterReturn := decide (k.name = .enter) }) := by
          simp only [step, hsequence, if_neg hescape, hcontrol]
          rw [if_neg (by simpa using hfeed)]
        have hsent : k.Sent := .of_name (by rw [hk]; simp) (Key.name_ofControl? hcontrol)
        rw [hstep]
        refine ⟨[.key k], turns_key hsent ?_, behind_piece (h.drops.key fun hhead => ?_) ?_⟩
        · rw [hpending, hk]
          simp [Sequence.pending]
        · have hc : c = '\n' := by simpa [hk] using hhead
          have hreturn : ¬ d.afterReturn = true := fun hreturn => hfeed ⟨hreturn, hc⟩
          exact Bool.eq_false_iff.mpr fun hlast => hreturn ((h.between hsequence).mpr hlast)
        · rw [Piece.isReturn, hk]
          by_cases hc : c = '\r'
          · simp [hname, hc]
          · simp [hname, hc]

/-- A character directly behind the escape character. -/
theorem step_turns_opened {d : Decoder} {story : List Piece} (h : d.Behind story) (hsequence : d.sequence = .opened)
    (c : Char) :
    ∃ added, Turns d [c] (d.step c).1.toList (d.step c).2 added ∧ (d.step c).2.Behind (story ++ added) := by
  have hpending : d.sequence.pending = ['\x1b'] := by rw [hsequence]; rfl
  by_cases hbracket : c = '['
  · have hstep : d.step c = (none, { d with sequence := .control "", afterReturn := false }) := by
      simp only [step, hsequence, if_pos hbracket]
    rw [hstep]
    refine exists_turns_within h nofun (by rw [hpending, hbracket]; rfl) fun ps hps => ?_
    cases hps
    exact nofun
  by_cases hletter : c = 'O'
  · have hstep : d.step c = (none, { d with sequence := .application, afterReturn := false }) := by
      simp only [step, hsequence, if_neg hbracket, if_pos hletter]
    rw [hstep]
    exact exists_turns_within h nofun (by rw [hpending, hletter]; rfl) nofun
  by_cases hescape : c = '\x1b'
  · have hstep : d.step c =
        (some { name := .escape, sequence := "\x1b" }, { d with sequence := .opened, afterReturn := false }) := by
      simp only [step, hsequence, if_neg hbracket, if_neg hletter, if_pos hescape]
    rw [hstep]
    -- the escape character before this one is the key, and this one may begin a sequence
    refine ⟨[_], turns_key (.of_name (by decide) nofun) ?_, behind_within (drops_escaped h.drops rfl) nofun nofun⟩
    rw [hpending, hescape]
    rfl
  · have hstep : d.step c = (some (.ofAlt c), { d with sequence := .none, afterReturn := false }) := by
      simp only [step, hsequence, if_neg hbracket, if_neg hletter, if_neg hescape]
    rw [hstep]
    exact exists_turns_escaped h (Key.sent_ofAlt c) hpending (by simp [Key.ofAlt_sequence])

/-- A character behind the escape character and `[`. -/
theorem step_turns_control {d : Decoder} {story : List Piece} (h : d.Behind story) {parameters : String}
    (hsequence : d.sequence = .control parameters) (c : Char) :
    ∃ added, Turns d [c] (d.step c).1.toList (d.step c).2 added ∧ (d.step c).2.Behind (story ++ added) := by
  have hpending : d.sequence.pending = '\x1b' :: '[' :: parameters.toList := by rw [hsequence]; rfl
  by_cases hparameter : Sequence.IsParameter c
  · have hstep : d.step c = (none, { d with sequence := .control (parameters.push c), afterReturn := false }) := by
      simp only [step, hsequence]
      rw [if_pos (by simpa [Sequence.IsParameter] using hparameter)]
    rw [hstep]
    refine exists_turns_within h nofun (by rw [hpending]; simp [Sequence.pending]) fun ps hps d hd => ?_
    cases hps
    rw [String.toList_push, List.mem_append, List.mem_singleton] at hd
    rcases hd with hd | rfl
    · exact h.parameters parameters hsequence d hd
    · exact hparameter
  · have hstep : d.step c =
        (some (Sequence.controlKey parameters c), { d with sequence := .none, afterReturn := false }) := by
      simp only [step, hsequence]
      rw [if_neg (by simpa [Sequence.IsParameter] using hparameter)]
    rw [hstep]
    exact exists_turns_escaped h (Sequence.sent_controlKey parameters c) hpending
      (by simp [Sequence.controlKey, Key.ofSequence])

/-- One character becomes at most one piece. -/
theorem step_turns {d : Decoder} {story : List Piece} (h : d.Behind story) (c : Char) :
    ∃ added, Turns d [c] (d.step c).1.toList (d.step c).2 added ∧ (d.step c).2.Behind (story ++ added) := by
  cases hsequence : d.sequence with
  | none => exact step_turns_none h hsequence c
  | opened => exact step_turns_opened h hsequence c
  | control parameters => exact step_turns_control h hsequence c
  | application =>
      have hpending : d.sequence.pending = ['\x1b', 'O'] := by rw [hsequence]; rfl
      have hstep : d.step c =
          (some (Sequence.applicationKey c), { d with sequence := .none, afterReturn := false }) := by
        simp only [step, hsequence]
      rw [hstep]
      exact exists_turns_escaped h (Sequence.sent_applicationKey c) hpending
        (by simp [Sequence.applicationKey, Key.ofSequence])

theorem keys_turns {d : Decoder} {story : List Piece} (h : d.Behind story) (cs : List Char) :
    ∃ added, Turns d cs (d.keys cs).1 (d.keys cs).2 added ∧ (d.keys cs).2.Behind (story ++ added) := by
  induction cs generalizing d story with
  | nil => exact ⟨[], ⟨rfl, by simp [keys], nofun, nofun⟩, by simpa [keys] using h⟩
  | cons c cs ih =>
      obtain ⟨added, hadded, hbehind⟩ := step_turns h c
      obtain ⟨more, hmore, hbehind'⟩ := ih hbehind
      rw [List.append_assoc] at hbehind'
      exact ⟨added ++ more, turns_trans hadded hmore, hbehind'⟩

/-! ### Chunks and given up sequences -/

/-- What is asked of a decoder. -/
inductive Call where
  | feed (chunk : List UInt8)
  | flush

def Call.bytes : Call → List UInt8
  | feed chunk => chunk
  | flush => []

def call (d : Decoder) : Call → List Key × Decoder
  | .feed chunk => d.feed chunk
  | .flush => d.flush

/-- The calls with the keys of each. -/
def exchanges (d : Decoder) : List Call → List (Call × List Key) × Decoder
  | [] => ([], d)
  | c :: cs =>
    let (ks, d) := d.call c
    let (rest, d) := d.exchanges cs
    ((c, ks) :: rest, d)

/-- What the keys of a call tell. A chunk ends no sequence by giving it up; `flush` gives up the one that is held back,
whose escape character is a key only if nothing follows it. -/
inductive Tells : Call → List Key → List Piece → Prop
  | feed {chunk : List UInt8} {story : List Piece} (whole : ∀ p ∈ story, p.isGivenUp = false) :
    Tells (.feed chunk) (Key.joinText (story.filterMap Piece.key?)) story
  | idle : Tells .flush [] []
  | escape : Tells .flush [{ name := .escape, sequence := "\x1b" }] [.key { name := .escape, sequence := "\x1b" }]
  | control {parameters : String} (h : ∀ c ∈ parameters.toList, Sequence.IsParameter c) :
    Tells .flush [.text ("[" ++ parameters)] [.givenUp ("[" ++ parameters)]
  | application : Tells .flush [.text "O"] [.givenUp "O"]

theorem characters_of_tells {c : Call} {ks : List Key} {story : List Piece} (h : Tells c ks story) :
    Key.characters ks = story.flatMap Piece.kept := by
  cases h with
  | feed whole =>
      rw [Key.characters_joinText]
      clear whole
      induction story with
      | nil => rfl
      | cons p story ih =>
          cases p with
          | key k => simp [Key.characters, Piece.kept, Piece.key?, ← ih]
          | lineFeed =>
              rw [List.filterMap_cons, List.flatMap_cons, ← ih]
              rfl
          | givenUp rest => simp [Key.characters, Piece.kept, Piece.key?, ← ih]
  | idle => rfl
  | escape => rfl
  | control => simp [Key.characters, Piece.kept, Piece.key?]
  | application => rfl

theorem not_isControl_of_isParameter {c : Char} (h : Sequence.IsParameter c) : ¬ Text.IsControl c := by
  rcases h with h | rfl
  · have hbounds : 0x30 ≤ c.toNat ∧ c.toNat ≤ 0x39 := by
      simpa [Char.isDigit, UInt32.le_iff_toNat_le] using h
    rintro (hlow | hdelete) <;> omega
  · decide

/-- The escape character of a sequence that is given up is left out, and no line feed. -/
theorem drops_givenUp {story : List Piece} (h : DropsLineFeeds story) (rest : String) :
    DropsLineFeeds (story ++ [.givenUp rest]) :=
  h.concat ⟨nofun, fun ⟨hread, _⟩ => nomatch hread⟩

theorem flush_tells {d : Decoder} {story : List Piece} (h : d.Behind story) :
    ∃ added, Tells .flush d.flush.1 added ∧
      added.flatMap Piece.read ++ d.flush.2.sequence.pending = d.sequence.pending ∧
      d.flush.2.Behind (story ++ added) ∧ ∀ k ∈ d.flush.1, k.Sent := by
  -- inside a sequence the last piece is no carriage return, so a line feed behind it is a key
  have hbehind : ∀ {p : Piece}, p.isReturn = false → DropsLineFeeds (story ++ [p]) → d.sequence ≠ .none →
      { d with sequence := .none }.Behind (story ++ [p]) := by
    intro p hp hdrops hwithin
    exact ⟨hdrops, fun _ => by simp [h.within hwithin, hp], fun hne => absurd rfl hne, nofun⟩
  unfold flush
  cases hsequence : d.sequence with
  | none =>
      refine ⟨[], .idle, rfl, ?_, nofun⟩
      rw [List.append_nil, ← hsequence]
      exact h
  | opened =>
      refine ⟨_, .escape, rfl, hbehind rfl (drops_escaped h.drops rfl) (by rw [hsequence]; nofun), fun k hk => ?_⟩
      rw [List.mem_singleton.mp hk]
      exact .of_name (by decide) nofun
  | control parameters =>
      refine ⟨_, .control (h.parameters parameters hsequence), ?_,
        hbehind rfl (drops_givenUp h.drops _) (by rw [hsequence]; nofun), fun k hk => ?_⟩
      · simp [Piece.read, Piece.dropped, Piece.kept, Piece.key?, Sequence.pending]
      · rw [List.mem_singleton.mp hk]
        refine Key.sent_text (by simp) fun c hc => ?_
        rw [String.toList_append, List.mem_append] at hc
        rcases hc with hc | hc
        · rw [List.mem_singleton.mp hc]
          decide
        · exact not_isControl_of_isParameter (h.parameters parameters hsequence c hc)
  | application =>
      refine ⟨_, .application, rfl, hbehind rfl (drops_givenUp h.drops _) (by rw [hsequence]; nofun), fun k hk => ?_⟩
      rw [List.mem_singleton.mp hk]
      have hplain : "O".toList.all (fun c => decide (¬ Text.IsControl c)) = true := by decide
      exact Key.sent_text (by decide) fun c hc => of_decide_eq_true (List.all_eq_true.mp hplain c hc)

theorem feed_tells {d : Decoder} {story : List Piece} (h : d.Behind story) (chunk : List UInt8) :
    ∃ added, Tells (.feed chunk) (d.feed chunk).1 added ∧
      added.flatMap Piece.read ++ (d.feed chunk).2.sequence.pending =
        d.sequence.pending ++ (Text.Utf8.decode (d.bytes ++ chunk)).1 ∧
      (d.feed chunk).2.Behind (story ++ added) ∧ ∀ k ∈ (d.feed chunk).1, k.Sent := by
  obtain ⟨added, hturns, hbehind⟩ := keys_turns h (Text.Utf8.decode (d.bytes ++ chunk)).1
  rw [feed_eq]
  refine ⟨added, ?_, hturns.read, ⟨hbehind.drops, hbehind.between, hbehind.within, hbehind.parameters⟩,
    Key.sent_joinText hturns.sent⟩
  rw [hturns.keys]
  exact .feed hturns.whole

/-- Each call accounts for the characters it decodes. -/
theorem call_tells {d : Decoder} {story : List Piece} (h : d.Behind story)
    (hheld : Text.Utf8.decode d.bytes = ([], d.bytes)) (c : Call) :
    ∃ added, Tells c (d.call c).1 added ∧
      added.flatMap Piece.read ++ (d.call c).2.sequence.pending =
        d.sequence.pending ++ (Text.Utf8.decode (d.bytes ++ c.bytes)).1 ∧
      (d.call c).2.bytes = (Text.Utf8.decode (d.bytes ++ c.bytes)).2 ∧
      (d.call c).2.Behind (story ++ added) ∧ ∀ k ∈ (d.call c).1, k.Sent := by
  cases c with
  | feed chunk =>
      obtain ⟨added, htells, hread, hbehind, hsent⟩ := feed_tells h chunk
      refine ⟨added, htells, hread, ?_, hbehind, hsent⟩
      rw [call, feed_eq]
      rfl
  | flush =>
      obtain ⟨added, htells, hread, hbehind, hsent⟩ := flush_tells h
      rw [Call.bytes, List.append_nil, hheld, List.append_nil]
      exact ⟨added, htells, hread, rfl, hbehind, hsent⟩

theorem exchanges_tell {d : Decoder} {story : List Piece} (h : d.Behind story)
    (hheld : Text.Utf8.decode d.bytes = ([], d.bytes)) (cs : List Call) :
    ∃ stories, List.Forall₂ (fun x => Tells x.1 x.2) (d.exchanges cs).1 stories ∧
      stories.flatten.flatMap Piece.read ++ (d.exchanges cs).2.sequence.pending =
        d.sequence.pending ++ (Text.Utf8.decode (d.bytes ++ cs.flatMap Call.bytes)).1 ∧
      (d.exchanges cs).2.bytes = (Text.Utf8.decode (d.bytes ++ cs.flatMap Call.bytes)).2 ∧
      (d.exchanges cs).2.Behind (story ++ stories.flatten) ∧
      ∀ x ∈ (d.exchanges cs).1, ∀ k ∈ x.2, k.Sent := by
  induction cs generalizing d story with
  | nil =>
      refine ⟨[], .nil, ?_, ?_, ?_, nofun⟩
      · simp [exchanges, hheld]
      · simp [exchanges, hheld]
      · simpa [exchanges] using h
  | cons c cs ih =>
      obtain ⟨added, htells, hread, hbytes, hbehind, hsent⟩ := call_tells h hheld c
      have hheld' : Text.Utf8.decode (d.call c).2.bytes = ([], (d.call c).2.bytes) := by
        rw [hbytes]
        exact Text.Utf8.decode_held _
      obtain ⟨stories, htells', hread', hbytes', hbehind', hsent'⟩ := ih hbehind hheld'
      have hdecode := Text.Utf8.decode_append (d.bytes ++ c.bytes) (cs.flatMap Call.bytes)
      rw [← hbytes, List.append_assoc] at hdecode
      rw [List.append_assoc] at hbehind'
      refine ⟨added :: stories, .cons htells htells', ?_, ?_, hbehind', List.forall_mem_cons.mpr ⟨hsent, hsent'⟩⟩
      · rw [List.flatMap_cons, hdecode, List.flatten_cons, List.flatMap_append, List.append_assoc]
        rw [← List.append_assoc d.sequence.pending, ← hread, List.append_assoc, ← hread']
        rfl
      · rw [List.flatMap_cons, hdecode]
        exact hbytes'

/-- Nothing is lost and nothing invented. The characters that have been decoded are those of the keys, in their order,
and those that are held back, but for line feeds that belong to a carriage return and the escape characters of
sequences that `flush` gives up. -/
theorem exchanges_account (cs : List Call) :
    ∃ decoded stories,
      Text.Utf8.Lossy (cs.flatMap Call.bytes) decoded (exchanges {} cs).2.bytes ∧
        List.Forall₂ (fun x => Tells x.1 x.2) (exchanges {} cs).1 stories ∧
        Key.characters ((exchanges {} cs).1.flatMap Prod.snd) = stories.flatten.flatMap Piece.kept ∧
        stories.flatten.flatMap Piece.read ++ (exchanges {} cs).2.sequence.pending = decoded ∧
        DropsLineFeeds stories.flatten ∧
        ∀ k ∈ (exchanges {} cs).1.flatMap Prod.snd, k.Sent := by
  have hfresh : Text.Utf8.decode ({} : Decoder).bytes = ([], ({} : Decoder).bytes) := Text.Utf8.decode_of_none rfl
  obtain ⟨stories, htells, hread, hbytes, hbehind, hsent⟩ := exchanges_tell behind_nil hfresh cs
  have hcharacters : ∀ {xs : List (Call × List Key)} {stories : List (List Piece)},
      List.Forall₂ (fun x => Tells x.1 x.2) xs stories →
      Key.characters (xs.flatMap Prod.snd) = stories.flatten.flatMap Piece.kept := by
    intro xs stories h
    induction h with
    | nil => rfl
    | cons hx _ ih =>
        rw [List.flatMap_cons, Key.characters, List.flatMap_append, List.flatten_cons, List.flatMap_append,
          ← characters_of_tells hx, ← ih]
        rfl
  refine ⟨_, stories, ?_, htells, hcharacters htells, hread, hbehind.drops, fun k hk => ?_⟩
  · rw [hbytes]
    exact Text.Utf8.lossy_decode _
  · obtain ⟨x, hx, hkx⟩ := List.mem_flatMap.mp hk
    exact hsent x hx k hkx

end Decoder

end Console

end ScriptRepl
