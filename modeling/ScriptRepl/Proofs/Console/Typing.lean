import ScriptRepl.Proofs.Console.Alone
import ScriptRepl.Proofs.Console.Provenance

/-! Text that is typed. As long as only characters come that are no control characters, the line is these characters
and the cursor is behind the last one, whatever the background answers and whenever it does: only jobs are issued whose
answers are shown without being inserted. -/
namespace ScriptRepl.Console

namespace Key

theorem ofControl?_of_not_isControl {c : Char} (h : ¬ Text.IsControl c) : ofControl? c = none := by
  have hne : ∀ d, Text.IsControl d → c ≠ d := by
    rintro d hd rfl
    exact h hd
  have hlarge : 0x20 ≤ c.toNat := Nat.not_lt.mp (not_or.mp h).1
  unfold ofControl?
  dsimp only
  rw [if_neg (hne '\r' (by decide)), if_neg (hne '\n' (by decide)), if_neg (hne '\t' (by decide)),
    if_neg (by simp [hne '\x08' (by decide), hne '\x7f' (by decide)]), if_neg, if_neg]
  · simp [hne '\x00' (by decide), Char.le_def, UInt32.le_iff_toNat_le]
    omega
  · simp [Char.le_def, UInt32.le_iff_toNat_le]
    omega

theorem joinText_singletons (c : Char) (cs : List Char) :
    joinText ((c :: cs).map fun c => text c.toString) = [text (String.ofList (c :: cs))] := by
  induction cs generalizing c with
  | nil => rfl
  | cons d cs ih =>
      rw [List.map_cons, joinText_cons, ih d, joinOne, if_pos (by simp)]
      simp

end Key

namespace Decoder

theorem step_plain {d : Decoder} (hsequence : d.sequence = .none) (hreturn : d.afterReturn = false) {c : Char}
    (h : ¬ Text.IsControl c) : d.step c = (some (.text c.toString), d) := by
  have hescape : c ≠ '\x1b' := by
    rintro rfl
    exact h (by decide)
  have hcontrol := Key.ofControl?_of_not_isControl h
  obtain ⟨sequence, bytes, afterReturn⟩ := d
  subst hsequence hreturn
  simp only [step, if_neg hescape, hcontrol]

theorem keys_plain {d : Decoder} (hsequence : d.sequence = .none) (hreturn : d.afterReturn = false) {cs : List Char}
    (h : ∀ c ∈ cs, ¬ Text.IsControl c) : d.keys cs = (cs.map fun c => .text c.toString, d) := by
  induction cs with
  | nil => rfl
  | cons c cs ih =>
      obtain ⟨hc, hcs⟩ := List.forall_mem_cons.mp h
      rw [keys, step_plain hsequence hreturn hc]
      dsimp only
      rw [ih hcs]
      rfl

/-- The key that inserts some characters; there is none if there are no characters. -/
def typed : List Char → List Key
  | [] => []
  | c :: cs => [.text (String.ofList (c :: cs))]

theorem feed_plain {d : Decoder} (hsequence : d.sequence = .none) (hreturn : d.afterReturn = false)
    {chunk : List UInt8} (h : ∀ c ∈ (Text.Utf8.decode (d.bytes ++ chunk)).1, ¬ Text.IsControl c) :
    d.feed chunk =
      (typed (Text.Utf8.decode (d.bytes ++ chunk)).1, { bytes := (Text.Utf8.decode (d.bytes ++ chunk)).2 }) := by
  rw [feed_eq, keys_plain hsequence hreturn h]
  obtain ⟨sequence, bytes, afterReturn⟩ := d
  subst hsequence hreturn
  cases (Text.Utf8.decode (bytes ++ chunk)).1 with
  | nil => rfl
  | cons c cs => rw [Key.joinText_singletons, typed]

end Decoder

namespace Buffer

variable {b : Buffer}

theorem sides_of_atEnd (h : b.atEnd = true) : b.before = b.text.toList ∧ b.after = [] := by
  have hbefore : b.before = b.text.toList := by
    rw [← beforeCursor_of_atEnd h, beforeCursor, String.toList_ofList]
  have hboth := b.sides_append
  rw [hbefore] at hboth
  exact ⟨hbefore, List.append_right_eq_self.mp hboth⟩

/-- What is inserted at the end of the line is behind it, and the cursor is behind that. -/
theorem insert_of_atEnd (h : b.atEnd = true) (s : String) :
    (b.insert s).text = b.text ++ s ∧ (b.insert s).atEnd = true := by
  by_cases hs : s = ""
  · rw [hs, insert_empty, String.append_empty]
    exact ⟨rfl, h⟩
  · obtain ⟨hbefore, hafter⟩ := sides_of_atEnd h
    have htext : (b.insert s).text = b.text ++ s := by
      rw [insert_of_ne b hs, hbefore, hafter, place, List.append_nil, String.ofList_append, String.ofList_toList,
        String.ofList_toList]
    refine ⟨htext, ?_⟩
    rw [atEnd, htext, insert_of_ne b hs, hbefore, place]
    simp [← Text.size_toList]

end Buffer

/-- A job whose answer is shown at most: it inserts nothing. -/
def Job.OnlyShows : Job → Prop
  | .complete _ mode _ => mode = .partly
  | .preview .. => True

namespace Engine

/-- The bytes that have come are the line and the beginning of a character; nothing has been asked for that could be
inserted. -/
structure Typed (e : Engine) (bytes : List UInt8) : Prop where
  mode : e.mode = .normal
  decoder : e.decoder = { bytes := (Text.Utf8.decode bytes).2 }
  text : e.buffer.text = String.ofList (Text.Utf8.decode bytes).1
  atEnd : e.buffer.atEnd = true
  jobs : ∀ job ∈ e.jobs, job.OnlyShows

variable {e e' : Engine} {bytes : List UInt8}

/-- What is shown and what is remembered makes no difference. -/
theorem Typed.of_same (h : e.Typed bytes) (hmode : e'.mode = e.mode) (hdecoder : e'.decoder = e.decoder)
    {suffix : Option Suffix} (hbuffer : e'.buffer = e.buffer.setSuffix suffix)
    (hjobs : ∀ job ∈ e'.jobs, job.OnlyShows) : e'.Typed bytes where
  mode := hmode.trans h.mode
  decoder := hdecoder.trans h.decoder
  text := by
    rw [hbuffer]
    exact h.text
  atEnd := by
    rw [hbuffer]
    exact h.atEnd
  jobs := hjobs

theorem Typed.paint (h : e.Typed bytes) : e.paint.Typed bytes := by
  obtain ⟨screen, output, hpaint⟩ := e.paint_spec
  rw [hpaint]
  exact h.of_same rfl rfl rfl h.jobs

theorem Typed.issue (h : e.Typed bytes) {job : Job} (hjob : job.OnlyShows) : (e.issue job).Typed bytes := by
  refine h.of_same rfl rfl rfl fun job' hjob' => ?_
  rcases List.mem_append.mp hjob' with hold | hnew
  · exact h.jobs job' hold
  · rw [List.mem_singleton.mp hnew]
    exact hjob

theorem Typed.requestPreview (h : e.Typed bytes) : e.requestPreview.Typed bytes := by
  unfold Engine.requestPreview
  split
  · exact h.issue trivial
  · exact h

theorem Typed.schedule (h : e.Typed bytes) : e.schedule.Typed bytes := by
  have hnoted : ({ e with scheduled := some e.buffer.generation, suggestion := e.suggestion.clear } : Engine).Typed
      bytes := h.of_same rfl rfl rfl h.jobs
  unfold Engine.schedule
  split
  · exact h
  · dsimp only
    split
    · exact hnoted
    · split
      · exact hnoted.issue rfl
      · exact hnoted.requestPreview

theorem Typed.refresh (h : e.Typed bytes) : e.refresh.Typed bytes :=
  h.paint.schedule

/-! ### Answers -/

theorem Typed.showSuffix (h : e.Typed bytes) (suffix : Suffix) : (e.showSuffix suffix).Typed bytes := by
  have hsuffix : (e.withBuffer (e.buffer.setSuffix (some suffix))).Typed bytes := h.of_same rfl rfl rfl h.jobs
  exact hsuffix.paint

theorem Typed.onPartly (h : e.Typed bytes) (generation : Nat) (result : Option Assist.Completion) :
    (e.onPartly generation result).Typed bytes := by
  have htaken : ({ e with suggestion := (e.suggestion.take generation result).2 } : Engine).Typed bytes :=
    h.of_same rfl rfl rfl h.jobs
  unfold Engine.onPartly
  dsimp only
  split
  · exact htaken.showSuffix _
  · exact htaken.requestPreview

theorem Typed.onPreview (h : e.Typed bytes) (text : Option String) : (e.onPreview text).Typed bytes := by
  unfold Engine.onPreview
  split
  · split
    · exact h
    · exact h.showSuffix _
  · exact h

/-- Whatever the answer to such a job is and whenever it comes, the line stays as it was typed. -/
theorem Typed.onAnswer (h : e.Typed bytes) {a : Answer} (ha : a.job.OnlyShows) : (e.onEvent a.event).Typed bytes := by
  unfold Engine.onEvent
  split
  · exact h
  · cases a with
    | completion generation mode source result =>
        have hmode : mode = .partly := ha
        subst hmode
        exact h.onPartly generation _
    | preview generation source width text => exact h.onPreview text

theorem Typed.historyLoaded (h : e.Typed bytes) (lines : List String) :
    (e.onEvent (.historyLoaded lines)).Typed bytes :=
  h.of_same rfl rfl rfl h.jobs

/-! ### Input -/

variable (handler : LineHandler σ)

/-- Keys that insert some text, or none, with the decoder that is left behind them. -/
theorem Typed.keysThenRefresh (h : e.Typed bytes) {chunk : List UInt8} {cs : List Char} {held : List UInt8}
    (hdecode : Text.Utf8.decode (bytes ++ chunk) = ((Text.Utf8.decode bytes).1 ++ cs, held)) (s : σ) :
    ∃ e', ({ e with decoder := { bytes := held } } : Engine).keysThenRefresh handler (Decoder.typed cs) s =
        (.goOn, e', s) ∧ e'.Typed (bytes ++ chunk) := by
  cases cs with
  | nil =>
      refine ⟨_, rfl, Typed.refresh ⟨h.mode, ?_, ?_, h.atEnd, h.jobs⟩⟩
      · rw [hdecode]
      · rw [hdecode, List.append_nil]
        exact h.text
  | cons c cs =>
      let decoded : Engine := { e with decoder := { bytes := held } }
      have htyped := type_of_normal (e := decoded) h.mode (String.ofList (c :: cs))
      obtain ⟨htext, hatEnd⟩ := Buffer.insert_of_atEnd h.atEnd (String.ofList (c :: cs))
      refine ⟨(decoded.type (String.ofList (c :: cs))).refresh, ?_, Typed.refresh ?_⟩
      · rw [Engine.keysThenRefresh, Decoder.typed, keys, key_of_goOn handler (press_text _ _)]
        rfl
      · rw [htyped]
        refine ⟨h.mode, ?_, ?_, hatEnd, h.jobs⟩
        · rw [hdecode]
          rfl
        · rw [hdecode, String.ofList_append, ← h.text]
          exact htext

/-- A chunk of characters that are no control characters. -/
theorem Typed.feed (h : e.Typed bytes) {chunk : List UInt8}
    (hplain : ∀ c ∈ (Text.Utf8.decode (bytes ++ chunk)).1, ¬ Text.IsControl c) (s : σ) :
    ∃ e', e.feed handler chunk s = (.goOn, e', s) ∧ e'.Typed (bytes ++ chunk) := by
  have hdecode := Text.Utf8.decode_append bytes chunk
  have hnew : ∀ c ∈ (Text.Utf8.decode ((Text.Utf8.decode bytes).2 ++ chunk)).1, ¬ Text.IsControl c := by
    intro c hc
    refine hplain c ?_
    rw [hdecode]
    exact List.mem_append_right _ hc
  have hfeed : e.decoder.feed chunk =
      (Decoder.typed (Text.Utf8.decode ((Text.Utf8.decode bytes).2 ++ chunk)).1,
        { bytes := (Text.Utf8.decode ((Text.Utf8.decode bytes).2 ++ chunk)).2 }) := by
    rw [h.decoder]
    exact Decoder.feed_plain rfl rfl hnew
  unfold Engine.feed
  rw [hfeed]
  exact h.keysThenRefresh handler hdecode s

/-- Nothing is held back that could be given up. -/
theorem Typed.flushEscape (h : e.Typed bytes) (s : σ) : e.flushEscape handler s = (.goOn, e.refresh, s) := by
  have hflush : e.decoder.flush = ([], e.decoder) := by
    rw [h.decoder]
    rfl
  unfold Engine.flushEscape
  rw [hflush]
  rfl

end Engine

/-! ### The run -/

/-- The bytes that are typed. -/
def Input.bytes : Input → List UInt8
  | chunk bytes => bytes
  | flush | answer _ | historyLoaded _ | resize _ => []

namespace World

/-- An engine that nothing has been done with. -/
def fresh (settings : Settings) (highlighter : String → String) (history : HistoryStore) (columns : Nat) (state : σ) :
    World σ :=
  { engine := Engine.new settings highlighter history columns, state }

/-- The engine and what is on its way to it. -/
structure Typed (w : World σ) (bytes : List UInt8) (state : σ) : Prop where
  engine : w.engine.Typed bytes
  issued : ∀ job ∈ w.issued, job.OnlyShows
  state : w.state = state

variable {w : World σ} {bytes : List UInt8} {state : σ}

theorem typed_settle {e : Engine} (h : e.Typed bytes) (hissued : ∀ job ∈ w.issued, job.OnlyShows)
    (hstate : w.state = state) : (w.settle e).Typed bytes state where
  engine := h.of_same rfl rfl rfl nofun
  issued job hjob := (List.mem_append.mp hjob).elim (hissued job) (h.jobs job)
  state := hstate

theorem Typed.step (h : w.Typed bytes state) (handler : LineHandler σ) (input : Input)
    (hplain : ∀ c ∈ (Text.Utf8.decode (bytes ++ input.bytes)).1, ¬ Text.IsControl c) :
    (w.step handler input).Typed (bytes ++ input.bytes) state := by
  cases input with
  | chunk chunk =>
      obtain ⟨e', hfeed, htyped⟩ : ∃ e', w.engine.feed handler chunk w.state = (.goOn, e', w.state) ∧
          e'.Typed (bytes ++ chunk) := h.engine.feed handler hplain w.state
      unfold World.step
      dsimp only
      rw [hfeed]
      exact typed_settle htyped h.issued h.state
  | flush =>
      unfold World.step
      dsimp only
      rw [h.engine.flushEscape, Input.bytes, List.append_nil]
      exact typed_settle h.engine.refresh h.issued h.state
  | answer a =>
      unfold World.step
      rw [Input.bytes, List.append_nil]
      dsimp only
      split
      · rename_i hjob
        exact typed_settle (h.engine.onAnswer (h.issued a.job hjob)) h.issued h.state
      · exact h
  | historyLoaded lines =>
      rw [Input.bytes, List.append_nil]
      exact typed_settle (h.engine.historyLoaded lines) h.issued h.state
  | resize columns =>
      have hresized : (w.engine.setColumns columns).Typed bytes := h.engine.of_same rfl rfl rfl h.engine.jobs
      rw [Input.bytes, List.append_nil]
      exact typed_settle hresized.paint h.issued h.state

theorem Typed.run (h : w.Typed bytes state) (handler : LineHandler σ) (inputs : List Input)
    (hplain : ∀ c ∈ (Text.Utf8.decode (bytes ++ inputs.flatMap Input.bytes)).1, ¬ Text.IsControl c) :
    (w.run handler inputs).Typed (bytes ++ inputs.flatMap Input.bytes) state := by
  induction inputs generalizing w bytes with
  | nil => simpa [World.run] using h
  | cons input inputs ih =>
      rw [List.flatMap_cons, ← List.append_assoc] at hplain ⊢
      -- what has been decoded after the first input is the beginning of what is decoded in the end
      have hfirst : ∀ c ∈ (Text.Utf8.decode (bytes ++ input.bytes)).1, ¬ Text.IsControl c := by
        intro c hc
        refine hplain c ?_
        rw [Text.Utf8.decode_append]
        exact List.mem_append_left _ hc
      exact ih (h.step handler input hfirst) hplain

theorem typed_fresh (settings : Settings) (highlighter : String → String) (history : HistoryStore) (columns : Nat)
    (state : σ) : (fresh settings highlighter history columns state).Typed [] state where
  engine := by
    refine ⟨rfl, ?_, ?_, rfl, nofun⟩
    · rw [Text.Utf8.decode_of_none rfl]
      rfl
    · rw [Text.Utf8.decode_of_none rfl]
      rfl
  issued := nofun
  state := rfl

/-- However the bytes of a text without control characters are cut, and whatever is answered in between to the jobs that
have been issued, the line becomes the text with the cursor at its end, and the handler is not called. -/
theorem run_types (handler : LineHandler σ) (settings : Settings) (highlighter : String → String)
    (history : HistoryStore) (columns : Nat) (state : σ) (inputs : List Input) (s : String)
    (hplain : ∀ c ∈ s.toList, ¬ Text.IsControl c) (hbytes : inputs.flatMap Input.bytes = s.toUTF8.data.toList) :
    let w := (fresh settings highlighter history columns (state, [])).run (recording handler) inputs
    w.engine.buffer.text = s ∧ w.engine.buffer.cursor = s.utf8ByteSize ∧ w.state = (state, []) := by
  intro w
  have hdecode : Text.Utf8.decode ([] ++ inputs.flatMap Input.bytes) = (s.toList, []) := by
    have hencoding : s.toUTF8.data.toList = s.toList.flatMap String.utf8EncodeChar := by
      change s.toByteArray.data.toList = _
      rw [← String.utf8Encode_toList, List.utf8Encode, List.data_toByteArray]
    rw [List.nil_append, hbytes, hencoding, Text.Utf8.decode_encode]
  have htyped : w.Typed ([] ++ inputs.flatMap Input.bytes) (state, []) := by
    refine (typed_fresh settings highlighter history columns _).run (recording handler) inputs ?_
    rw [hdecode]
    exact hplain
  have htext : w.engine.buffer.text = s := by
    rw [htyped.engine.text, hdecode, String.ofList_toList]
  refine ⟨htext, ?_, htyped.state⟩
  rw [← htext]
  exact of_decide_eq_true htyped.engine.atEnd

/-- A character that is cut in two, with completions for what has been typed in between. -/
theorem run_types_cut :
    let handler : LineHandler Nat := fun line n => (.output line, n + 1)
    let completions : Answer := .completion 1 .partly "m" (.ok (some (.candidates ["m\u00e9moire", "m\u00eame"])))
    let inputs : List Input := [.chunk [0x6d, 0xc3], .answer completions, .chunk [0xa9]]
    let w := (fresh {} id (.inMemory 3) 80 (0, [])).run (recording handler) inputs
    (∀ c ∈ "m\u00e9".toList, ¬ Text.IsControl c) ∧ inputs.flatMap Input.bytes = "m\u00e9".toUTF8.data.toList ∧
      w.engine.buffer.text = "m\u00e9" ∧ w.engine.buffer.cursor = 3 ∧ w.state = (0, []) := by
  intro handler completions inputs w
  have hall : "m\u00e9".toList.all (fun c => decide (¬ Text.IsControl c)) = true := by decide
  have hplain : ∀ c ∈ "m\u00e9".toList, ¬ Text.IsControl c :=
    fun c hc => of_decide_eq_true (List.all_eq_true.mp hall c hc)
  have hbytes : inputs.flatMap Input.bytes = "m\u00e9".toUTF8.data.toList := by decide
  exact ⟨hplain, hbytes, run_types handler {} id (.inMemory 3) 80 0 inputs "m\u00e9" hplain hbytes⟩

end World

end ScriptRepl.Console
