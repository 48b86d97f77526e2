import ScriptRepl.Proofs.Console.Alone
import ScriptRepl.Proofs.Console.Chunking

/-! What the engine does with its input does not depend on where this is cut into chunks. Chunks do what their keys do
in turn, and the keys of other chunks with the same bytes are the same up to where the text to insert is cut. -/
namespace ScriptRepl.Console

/-! ### Keys that insert text -/

namespace Key

/-- There is nothing to a key that inserts text but the text. -/
def Plain (k : Key) : Prop :=
  k.isText = true → k = .text k.sequence

theorem plain_text (s : String) : (text s).Plain :=
  fun _ => rfl

theorem plain_of_name {k : Key} (h : k.name ≠ .text) : k.Plain :=
  fun htext => absurd (of_decide_eq_true htext) h

theorem plain_joinText {ks : List Key} (h : ∀ k ∈ ks, k.Plain) : ∀ k ∈ joinText ks, k.Plain :=
  forall_joinText (fun _ _ _ _ _ _ => plain_text _) h

end Key

namespace Decoder

theorem plain_step (d : Decoder) (c : Char) : ∀ k ∈ (d.step c).1, k.Plain := by
  unfold step
  cases d.sequence with
  | none =>
      dsimp only
      split
      · simp
      · split
        · rename_i hcontrol
          split
          · simp
          · simpa using Key.plain_of_name (Key.name_ofControl? hcontrol)
        · simpa using Key.plain_text _
  | opened =>
      dsimp only
      repeat' split
      all_goals simp
      · exact Key.plain_of_name (by simp)
      · exact Key.plain_of_name (Key.name_ofAlt c)
  | control parameters =>
      dsimp only
      split
      · simp
      · simpa using Key.plain_of_name (Sequence.name_controlKey parameters c)
  | application =>
      simpa using Key.plain_of_name (Sequence.lettered_ne_text c)

theorem plain_keys (d : Decoder) (cs : List Char) : ∀ k ∈ (d.keys cs).1, k.Plain := by
  induction cs generalizing d with
  | nil => simp [keys]
  | cons c cs ih =>
      have hfirst := d.plain_step c
      rw [keys]
      intro k hk
      rcases List.mem_append.mp hk with hk | hk
      · exact hfirst k (Option.mem_toList.mp hk)
      · exact ih _ k hk

theorem plain_feeds (d : Decoder) (chunks : List (List UInt8)) : ∀ k ∈ (d.feeds chunks).1, k.Plain := by
  induction chunks generalizing d with
  | nil => simp [feeds]
  | cons chunk chunks ih =>
      rw [feeds]
      intro k hk
      rcases List.mem_append.mp hk with hk | hk
      · rw [feed_eq] at hk
        exact Key.plain_joinText (plain_keys _ _) k hk
      · exact ih _ k hk

end Decoder

namespace Engine

variable {e e' : Engine} (handler : LineHandler σ)

/-! ### Keys in turn -/

/-- What came of some input: the keys that were pressed, and what the last of them left. -/
structure Attended (σ : Type) where
  pressed : List Key
  flow : Flow
  engine : Engine
  state : σ

namespace Attended

/-- The same with keys that were pressed before. -/
def after (ks : List Key) (a : Attended σ) : Attended σ :=
  { a with pressed := ks ++ a.pressed }

/-- What comes of it if more is to come, unless a key exits. -/
def next (a : Attended σ) (f : Engine → σ → Attended σ) : Attended σ :=
  match a.flow with
  | .goOn => (f a.engine a.state).after a.pressed
  | .exit _ => a

theorem next_of_goOn {a : Attended σ} (h : a.flow = .goOn) (f : Engine → σ → Attended σ) :
    a.next f = (f a.engine a.state).after a.pressed := by
  rw [next, h]

theorem next_of_exit {a : Attended σ} {reason : ExitReason} (h : a.flow = .exit reason)
    (f : Engine → σ → Attended σ) : a.next f = a := by
  rw [next, h]

theorem next_after (ks : List Key) (a : Attended σ) (f : Engine → σ → Attended σ) :
    (a.after ks).next f = (a.next f).after ks := by
  cases h : a.flow with
  | goOn =>
      have hafter : (a.after ks).flow = .goOn := h
      rw [next_of_goOn h, next_of_goOn hafter]
      simp [after]
  | exit reason =>
      have hafter : (a.after ks).flow = .exit reason := h
      rw [next_of_exit h, next_of_exit hafter]

theorem next_assoc (a : Attended σ) (f g : Engine → σ → Attended σ) :
    (a.next f).next g = a.next fun e s => (f e s).next g := by
  cases h : a.flow with
  | goOn => rw [next_of_goOn h, next_of_goOn h, next_after]
  | exit reason => rw [next_of_exit h, next_of_exit h, next_of_exit h]

/-- The same came of it, whatever chunks the input had: the keys up to where the text to insert is cut, the engines up
to what the terminal and the background see of them. -/
structure Alike (a a' : Attended σ) : Prop where
  pressed : Key.joinText a.pressed = Key.joinText a'.pressed
  flow : a.flow = a'.flow
  engine : a.engine.Alike a'.engine
  state : a.state = a'.state

variable {a a' a'' : Attended σ}

theorem Alike.symm (h : a.Alike a') : a'.Alike a :=
  ⟨h.pressed.symm, h.flow.symm, h.engine.symm, h.state.symm⟩

theorem Alike.trans (h : a.Alike a') (h' : a'.Alike a'') : a.Alike a'' :=
  ⟨h.pressed.trans h'.pressed, h.flow.trans h'.flow, h.engine.trans h'.engine, h.state.trans h'.state⟩

theorem Alike.after (h : a.Alike a') {ks ks' : List Key} (hks : Key.joinText ks = Key.joinText ks') :
    (a.after ks).Alike (a'.after ks') := by
  refine ⟨?_, h.flow, h.engine, h.state⟩
  change Key.joinText (ks ++ a.pressed) = Key.joinText (ks' ++ a'.pressed)
  rw [← Key.joinText_append_joinText, ← Key.joinText_joinText_append, h.pressed, hks, Key.joinText_joinText_append,
    Key.joinText_append_joinText]

theorem Alike.next (h : a.Alike a') {f f' : Engine → σ → Attended σ}
    (hf : a.flow = .goOn → (f a.engine a.state).Alike (f' a'.engine a'.state)) : (a.next f).Alike (a'.next f') := by
  cases hflow : a.flow with
  | goOn =>
      rw [next_of_goOn hflow, next_of_goOn (h.flow ▸ hflow)]
      exact (hf hflow).after h.pressed
  | exit reason =>
      rw [next_of_exit hflow, next_of_exit (h.flow ▸ hflow)]
      exact h

end Attended

/-- The keys that are pressed: none behind one that exits. -/
def pressed (handler : LineHandler σ) (e : Engine) : List Key → σ → List Key
  | [], _ => []
  | k :: ks, s =>
    k :: match e.key handler k s with
      | (.goOn, e, s) => e.pressed handler ks s
      | (.exit _, _, _) => []

/-- What comes of keys in turn. -/
def course (handler : LineHandler σ) (e : Engine) (ks : List Key) (s : σ) : Attended σ :=
  let (flow, engine, state) := e.keys handler ks s
  { pressed := e.pressed handler ks s, flow, engine, state }

/-- What comes of chunks in turn: none is fed behind one with a key that exits. -/
def attend (handler : LineHandler σ) (e : Engine) : List (List UInt8) → σ → Attended σ
  | [], s => ⟨[], .goOn, e, s⟩
  | chunk :: chunks, s =>
    let (ks, decoder) := e.decoder.feed chunk
    let ks := { e with decoder }.pressed handler ks s
    match e.feed handler chunk s with
    | (.goOn, e, s) => (e.attend handler chunks s).after ks
    | (.exit reason, e, s) => ⟨ks, .exit reason, e, s⟩

/-- The input of a whole run is attended to in this way; its end leaves if no key did. -/
theorem chunks_eq_attend (e : Engine) (input : List (List UInt8)) (s : σ) :
    e.chunks handler input s =
      let a := e.attend handler input s
      ((match a.flow with
        | .goOn => .endOfInput
        | .exit reason => reason), a.engine, a.state) := by
  induction input generalizing e s with
  | nil => rfl
  | cons chunk input ih =>
      rw [chunks, attend]
      rcases e.feed handler chunk s with ⟨_ | reason, left, state⟩
      · exact ih left state
      · rfl

theorem course_cons (e : Engine) (k : Key) (ks : List Key) (s : σ) :
    e.course handler (k :: ks) s = (e.course handler [k] s).next fun e s => e.course handler ks s := by
  unfold course
  rw [keys, pressed, keys, pressed]
  rcases e.key handler k s with ⟨_ | _, engine, state⟩
  · rfl
  · rfl

theorem course_append (e : Engine) (ks ls : List Key) (s : σ) :
    e.course handler (ks ++ ls) s = (e.course handler ks s).next fun e s => e.course handler ls s := by
  induction ks generalizing e s with
  | nil => rfl
  | cons k ks ih =>
      rw [List.cons_append, course_cons, course_cons handler e k ks, Attended.next_assoc]
      simp only [ih]

theorem attend_cons (e : Engine) (chunk : List UInt8) (chunks : List (List UInt8)) (s : σ) :
    e.attend handler (chunk :: chunks) s =
      (({ e with decoder := (e.decoder.feed chunk).2 } : Engine).course handler (e.decoder.feed chunk).1 s).next
        fun e s => e.refresh.attend handler chunks s := by
  rw [attend]
  unfold feed keysThenRefresh course
  rcases e.decoder.feed chunk with ⟨ks, decoder⟩
  dsimp only
  rcases keys handler { e with decoder } ks s with ⟨_ | reason, engine, state⟩
  · rfl
  · rfl

theorem course_single (e : Engine) (k : Key) (s : σ) :
    e.course handler [k] s = ⟨[k], (e.key handler k s).1, (e.key handler k s).2.1, (e.key handler k s).2.2⟩ := by
  unfold course
  rw [keys, pressed]
  rcases e.key handler k s with ⟨_ | _, engine, state⟩
  · rfl
  · rfl

theorem Alike.course (h : e.Alike e') (ks : List Key) (s : σ) :
    (e.course handler ks s).Alike (e'.course handler ks s) := by
  induction ks generalizing e e' s with
  | nil => exact ⟨rfl, rfl, h, rfl⟩
  | cons k ks ih =>
      have hfirst : (e.course handler [k] s).Alike (e'.course handler [k] s) := by
        obtain ⟨hflow, hengine, hstate⟩ := h.key handler k s
        rw [course_single, course_single]
        exact ⟨rfl, hflow, hengine, hstate⟩
      rw [course_cons handler e k ks, course_cons handler e' k ks]
      refine hfirst.next fun _ => ?_
      rw [hfirst.state]
      exact ih hfirst.engine _

theorem course_text (e : Engine) (text : String) (ks : List Key) (s : σ) :
    e.course handler (.text text :: ks) s = ((e.type text).course handler ks s).after [.text text] := by
  rw [course_cons, course_single, key_of_goOn handler (e.press_text text)]
  rfl

/-- Two keys that insert text do what one does. -/
theorem Bare.course_joinOne (h : e.Bare) {k : Key} {ks : List Key} (hk : k.Plain) (hks : ∀ l ∈ ks, l.Plain) (s : σ) :
    (e.course handler (Key.joinOne k ks) s).Alike (e.course handler (k :: ks) s) := by
  cases ks with
  | nil => exact (Alike.refl h).course handler _ s
  | cons l ls =>
      rw [Key.joinOne]
      split
      · rename_i htext
        rw [Bool.and_eq_true] at htext
        have hl := hks l List.mem_cons_self htext.2
        have hparts : Key.joinText [.text (k.sequence ++ l.sequence)] =
            Key.joinText ([.text k.sequence] ++ [.text l.sequence]) := rfl
        have hrest := (h.alike_type_append k.sequence l.sequence).course handler ls s
        rw [hk htext.1, hl, course_text, course_text, course_text]
        exact hrest.after hparts
      · exact (Alike.refl h).course handler _ s

theorem Bare.course_joinText (h : e.Bare) {ks : List Key} (hks : ∀ k ∈ ks, k.Plain) (s : σ) :
    (e.course handler (Key.joinText ks) s).Alike (e.course handler ks s) := by
  induction ks generalizing e s with
  | nil => exact (Alike.refl h).course handler _ s
  | cons k ks ih =>
      obtain ⟨hk, hks⟩ := List.forall_mem_cons.mp hks
      have hjoined := h.course_joinOne handler hk (Key.plain_joinText hks) s
      have hfirst := (Alike.refl h).course handler [k] s
      rw [Key.joinText_cons]
      refine hjoined.trans ?_
      rw [course_cons handler e k (Key.joinText ks), course_cons handler e k ks]
      exact hfirst.next fun _ => ih hfirst.engine.bare hks _

/-! ### Chunks -/

theorem decoder_course (e : Engine) (ks : List Key) (s : σ) : (e.course handler ks s).engine.decoder = e.decoder := by
  change (e.keys handler ks s).2.1.decoder = e.decoder
  induction ks generalizing e s with
  | nil => rfl
  | cons k ks ih =>
      rw [← e.decoder_key handler k s, keys]
      rcases e.key handler k s with ⟨_ | reason, left, state⟩
      · exact ih left state
      · rfl

/-- Chunks do what their keys do. -/
theorem Bare.attend_eq_course (h : e.Bare) (chunks : List (List UInt8)) (s : σ) :
    (e.attend handler chunks s).Alike (e.course handler (e.decoder.feeds chunks).1 s) := by
  induction chunks generalizing e s with
  | nil => exact (Alike.refl h).course handler [] s
  | cons chunk chunks ih =>
      have hdecoded : ({ e with decoder := (e.decoder.feed chunk).2 } : Engine).Alike e :=
        ⟨rfl, ⟨h.suffix, h.candidates⟩, h⟩
      have hchunk := hdecoded.course handler (e.decoder.feed chunk).1 s
      rw [attend_cons, Decoder.feeds]
      dsimp only
      rw [course_append]
      refine hchunk.next fun _ => ?_
      have hrest := ih hchunk.engine.bare.refresh
      rw [decoder_refresh, decoder_course] at hrest
      refine (hrest _).trans ?_
      rw [hchunk.state]
      exact hchunk.engine.refresh.course handler _ _

/-- What comes of chunks is what comes of their bytes in one chunk. -/
theorem Bare.attend_flatten (h : e.Bare) (hbytes : Text.Utf8.decode e.decoder.bytes = ([], e.decoder.bytes))
    (chunks : List (List UInt8)) (s : σ) :
    (e.attend handler chunks s).Alike (e.course handler (e.decoder.feed chunks.flatten).1 s) := by
  have hkeys : Key.joinText (e.decoder.feeds chunks).1 = (e.decoder.feed chunks.flatten).1 :=
    congrArg Prod.fst (e.decoder.feeds_eq_feed hbytes chunks)
  have hjoined := h.course_joinText handler (e.decoder.plain_feeds chunks) s
  rw [hkeys] at hjoined
  exact (h.attend_eq_course handler chunks s).trans hjoined.symm

/-- However the input is cut into chunks, the handler is called with the same lines, the same key exits or none does, and
the line, the history and the mode are the same in the end. -/
theorem attend_of_flatten_eq (settings : Settings) (highlighter : String → String) (history : HistoryStore)
    (columns : Nat) (handler : LineHandler σ) (s : σ) {chunks chunks' : List (List UInt8)}
    (h : chunks.flatten = chunks'.flatten) :
    let e := new settings highlighter history columns
    let a := e.attend (recording handler) chunks (s, [])
    let a' := e.attend (recording handler) chunks' (s, [])
    a.state = a'.state ∧ a.flow = a'.flow ∧ Key.joinText a.pressed = Key.joinText a'.pressed ∧
      a.engine.buffer.text = a'.engine.buffer.text ∧ a.engine.buffer.cursor = a'.engine.buffer.cursor ∧
      a.engine.buffer.committed = a'.engine.buffer.committed ∧ a.engine.buffer.prompt = a'.engine.buffer.prompt ∧
      a.engine.history = a'.engine.history ∧ a.engine.mode = a'.engine.mode ∧ a.engine.armed = a'.engine.armed := by
  intro e a a'
  have hbare : e.Bare := bare_new settings highlighter history columns
  have hbytes : Text.Utf8.decode e.decoder.bytes = ([], e.decoder.bytes) := Text.Utf8.decode_of_none rfl
  have hone := hbare.attend_flatten (recording handler) hbytes chunks (s, [])
  have hother := hbare.attend_flatten (recording handler) hbytes chunks' (s, [])
  rw [← h] at hother
  have hsame : a.Alike a' := hone.trans hother.symm
  have hbuffer : a.engine.buffer.afresh = a'.engine.buffer.afresh := (congrArg Engine.buffer hsame.engine.afresh :)
  exact ⟨hsame.state, hsame.flow, hsame.pressed, (congrArg Buffer.text hbuffer :), (congrArg Buffer.cursor hbuffer :),
    (congrArg Buffer.committed hbuffer :), (congrArg Buffer.prompt hbuffer :),
    (congrArg Engine.history hsame.engine.afresh :), (congrArg Engine.mode hsame.engine.afresh :),
    (congrArg Engine.armed hsame.engine.afresh :)⟩

/-- A line, a search whose text is cut in two and the end of the input, in four chunks or in one. -/
theorem attend_of_flatten_eq_cut :
    let handler : LineHandler Nat := fun line n => (.output line, n + 1)
    let chunks : List (List UInt8) := [[0x61], [0x62, 0x0d, 0x12, 0x61], [0x62, 0x0d], [0x15, 0x04]]
    let chunks' : List (List UInt8) := [[0x61, 0x62, 0x0d, 0x12, 0x61, 0x62, 0x0d, 0x15, 0x04]]
    let a := (new {} id (.inMemory 3) 80).attend (recording handler) chunks (0, [])
    let a' := (new {} id (.inMemory 3) 80).attend (recording handler) chunks' (0, [])
    chunks.flatten = chunks'.flatten ∧ a.state = a'.state ∧ a.flow = a'.flow ∧
      a.engine.history = a'.engine.history ∧ a.engine.mode = a'.engine.mode := by
  intro handler chunks chunks' a a'
  have hflatten : chunks.flatten = chunks'.flatten := rfl
  obtain ⟨hstate, hflow, -, -, -, -, -, hhistory, hmode, -⟩ :=
    attend_of_flatten_eq {} id (.inMemory 3) 80 handler 0 hflatten
  exact ⟨hflatten, hstate, hflow, hhistory, hmode⟩

end Engine

end ScriptRepl.Console
