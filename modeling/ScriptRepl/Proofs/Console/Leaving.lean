import ScriptRepl.Proofs.Console.Bindings

/-! Leaving at the end of the input. There is a key for it, which leaves only if the line is empty; what is given up
then are the lines above it, which a search looks at and the line itself does not. -/
namespace ScriptRepl.Console

/-- Each line brings a line feed with it, an empty one too. -/
theorem ended_eq_empty {lines : List String} : ended lines = "" ↔ lines = [] := by
  cases lines with
  | nil => simp [ended]
  | cons line lines => simp [ended, String.append_eq_empty_iff]

namespace Key

/-- The key for the end of the input. -/
structure IsEndOfInput (k : Key) : Prop where
  name : k.name = .char 'd'
  ctrl : k.ctrl = true
  alt : k.alt = false

theorem controlAction_endOfInput {context : KeyContext} {c : Char} :
    controlAction context c = .endOfInput ↔ c = 'd' ∧ context.isEmpty = true := by
  unfold controlAction
  repeat' split
  all_goals simp_all

theorem action_endOfInput {context : KeyContext} {k : Key} :
    k.action context = .endOfInput ↔ k.IsEndOfInput ∧ context.isEmpty = true := by
  rw [action_control (by simp) (altAction_ne (by decide)) (by decide)]
  constructor
  · rintro ⟨c, hk, hc⟩
    obtain ⟨rfl, hempty⟩ := controlAction_endOfInput.mp hc
    exact ⟨⟨hk.name, hk.ctrl, hk.alt⟩, hempty⟩
  · rintro ⟨hk, hempty⟩
    exact ⟨'d', ⟨hk.name, hk.ctrl, hk.alt⟩, controlAction_endOfInput.mpr ⟨rfl, hempty⟩⟩

end Key

namespace Engine

theorem act_endOfInput (e : Engine) {action : Action} :
    (e.act action).1 = .exit .endOfInput ↔ action = .endOfInput := by
  cases action with
  | submit =>
      have hsubmit : e.submit.1 ≠ .exit .endOfInput := by
        unfold submit
        dsimp only
        split <;> simp
      simpa [act] using hsubmit
  | interrupt =>
      have hinterrupt : e.interrupt.1 ≠ .exit .endOfInput := by
        unfold interrupt
        split
        · simp
        · split <;> simp
      simpa [act] using hinterrupt
  | _ => simp [act]

theorem searchKey_leave {k : Key} {nothingTyped : Bool} :
    searchKey k nothingTyped = .leave ↔ k.IsEndOfInput ∧ nothingTyped = true := by
  constructor
  · intro h
    rcases searchKey_cases k nothingTyped with ⟨_, hadd⟩ | ⟨hname, hctrl, halt, hnothing, _⟩ | hother
    · rw [h] at hadd
      cases hadd
    · exact ⟨⟨hname, hctrl, halt⟩, hnothing⟩
    · rw [h] at hother
      exact absurd hother (by decide)
  · rintro ⟨hk, hnothing⟩
    simp [searchKey, hk.name, hk.ctrl, hk.alt, hnothing]

theorem pressSearch_endOfInput (e : Engine) (s : Search) (k : Key) :
    (e.pressSearch s k).1 = .exit .endOfInput ↔
      k.IsEndOfInput ∧ s.query = "" ∧ e.buffer.statement = "" := by
  have hnothing : (s.query.isEmpty && e.buffer.statement.isEmpty) = true ↔
      s.query = "" ∧ e.buffer.statement = "" := by simp
  rw [← hnothing, ← searchKey_leave]
  unfold pressSearch
  dsimp only
  split <;> simp_all

theorem press_endOfInput (e : Engine) (k : Key) :
    (e.press k).1 = .exit .endOfInput ↔
      k.IsEndOfInput ∧ e.buffer.text = "" ∧
        ∀ search, e.mode = .search search → search.query = "" ∧ e.buffer.committed = "" := by
  unfold press
  cases hmode : e.mode with
  | normal =>
      have hempty : e.context.isEmpty = true ↔ e.buffer.text = "" := by simp [context, Buffer.isEmpty]
      dsimp only
      unfold pressNormal
      dsimp only
      rw [act_endOfInput, Key.action_endOfInput, hempty]
      simp
  | search s =>
      dsimp only
      rw [e.pressSearch_endOfInput]
      simp only [Buffer.statement, String.append_eq_empty_iff, Mode.search.injEq, forall_eq', and_left_comm, and_comm]

theorem key_endOfInput (e : Engine) (handler : LineHandler σ) (k : Key) (s : σ) :
    (e.key handler k s).1 = .exit .endOfInput ↔ (e.press k).1 = .exit .endOfInput := by
  unfold key
  split
  · rename_i heq
    simp [heq]
  · rename_i heq
    simp [heq]
  · rename_i heq
    rw [heq]
    exact ⟨nofun, nofun⟩

end Engine

namespace Occasion

/-- Whatever has happened: a key leaves at the end of the input exactly if it is the key for that and the line is
empty, and in a search only if nothing is sought and no lines are above it. What is given up are the lines above. -/
theorem leaves_empty_line (settings : Settings) (highlighter : String → String) (capacity : Nat)
    (backing : Option Backing) (columns : Nat) (handler : LineHandler σ) (s : σ) (os : List Occasion)
    (decoder : Decoder) (ks : List Key) (k : Key) :
    let first := Engine.new settings highlighter { history := { capacity }, backing } columns
    let (e, s') := applyAll handler first s os
    let (_, e', s'') := ({ e with decoder } : Engine).keys handler ks s'
    let c := chronicleAll handler first s os ++ ({ e with decoder } : Engine).keysChronicle handler ks s'
    ((e'.key handler k s'').1 = .exit .endOfInput ↔
        k.IsEndOfInput ∧ e'.buffer.text = "" ∧
          ∀ search, e'.mode = .search search → search.query = "" ∧ c.pending = []) ∧
      e'.buffer.statement = ended c.pending ++ e'.buffer.text := by
  intro first
  have hempty : first.ledger.Sums capacity [] := ⟨rfl, rfl, (List.take_nil ..).symm⟩
  have hkeys := Engine.leads_keys handler { (applyAll handler first s os).1 with decoder } ks
    (applyAll handler first s os).2
  have hsums := ((leads_all handler first s os).append hkeys).sums hempty
  have hcommitted := hsums.committed
  rw [List.nil_append] at hcommitted
  refine ⟨?_, congrArg (· ++ _) hcommitted⟩
  rw [Engine.key_endOfInput, Engine.press_endOfInput, ← ended_eq_empty, ← hcommitted]
  rfl

/-- The line is empty and a statement goes on. The key for the end of the input leaves, and the statement is lost. -/
theorem leaves_open_statement :
    let handler := Engine.sessionHandler []
    let (e, s) := applyAll handler (.new {} id (.inMemory 10) 80) ({}, .fresh 0) [.chunk [0x28, 0x0d]]
    e.mode = .normal ∧ e.buffer.statement = "(\n" ∧ (e.feed handler [0x04] s).1 = .exit .endOfInput := by
  decide +kernel

end Occasion

end ScriptRepl.Console
