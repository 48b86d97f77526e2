import ScriptRepl.Console.Session
import ScriptRepl.Proofs.Console.Recorded

/-! What becomes of the lines that are submitted, written down in a chronicle. Two things that a console keeps can be
read off it: the lines above the one that is edited, and the entries of the history. The ledger is these two, and each
deed of a chronicle changes it in one way. -/
namespace ScriptRepl.Console

/-! ### Chronicles -/

inductive Deed where
  /-- A line was submitted. If the statement was not blank, the handler was called. -/
  | submitted (line : String) (call : Option (String × LineOutcome))
  | interrupted
  /-- Older entries of the history arrived. -/
  | delivered (older : List String)

namespace Deed

def call? : Deed → Option (String × LineOutcome)
  | submitted _ call => call
  | interrupted | delivered _ => none

/-- The statement that is complete after a deed. -/
def completed? : Deed → Option String
  | submitted _ (some (statement, .output _)) => some statement
  | submitted _ (some (_, .needsAnotherLine)) | submitted _ none | interrupted | delivered _ => none

/-- The lines of the statement that goes on after a deed, given those before it. -/
def pend (lines : List String) : Deed → List String
  | submitted line (some (_, .needsAnotherLine)) => lines ++ [line]
  | submitted _ (some (_, .output _)) | submitted _ none | interrupted => []
  | delivered _ => lines

def older : Deed → List String
  | delivered older => older
  | submitted _ _ | interrupted => []

end Deed

/-- What happened to statements and to the history, in turn. -/
abbrev Chronicle := List Deed

/-- Lines in turn, each of which a line feed ends. -/
def ended (lines : List String) : String :=
  String.join (lines.map (· ++ "\n"))

namespace Chronicle

def calls (c : Chronicle) : List (String × LineOutcome) :=
  c.filterMap Deed.call?

/-- The lines of the statement that goes on. -/
def pending (c : Chronicle) : List String :=
  c.foldl Deed.pend []

/-- The entries that the completed statements make, the newest first, and behind them the older ones. -/
def entries (c : Chronicle) : List String :=
  ((c.filterMap Deed.completed?).map History.oneLine).reverse ++ c.flatMap Deed.older

theorem calls_append (c d : Chronicle) : calls (c ++ d) = c.calls ++ d.calls := by
  simp [calls]

end Chronicle

/-- The handler was called with the lines of the statement that went on and the submitted one, unless all of that is
blank. -/
def Deed.Faithful (before : Chronicle) : Deed → Prop
  | submitted line call =>
      let statement := ended before.pending ++ line
      call.map Prod.fst = if Text.isBlankText statement then none else some statement
  | interrupted | delivered _ => True

def Chronicle.Faithful (c : Chronicle) : Prop :=
  ∀ before deed later, c = before ++ deed :: later → deed.Faithful before

/-! ### Ledgers -/

/-- What an engine keeps of statements: the text above the line that is edited, and the history, whatever entry a walk
through it has reached. -/
structure Ledger where
  committed : String
  history : History

namespace Ledger

def after (l : Ledger) : Deed → Ledger
  | .submitted line (some (_, .needsAnotherLine)) => { l with committed := l.committed ++ line ++ "\n" }
  | .submitted _ (some (statement, .output _)) => { committed := "", history := l.history.append statement }
  | .submitted _ none | .interrupted => { l with committed := "" }
  | .delivered older => { l with history := l.history.install older }

/-- The call that a deed tells of is one for the statement in the ledger. -/
def Allows (l : Ledger) : Deed → Prop
  | .submitted line call =>
      let statement := l.committed ++ line
      call.map Prod.fst = if Text.isBlankText statement then none else some statement
  | .interrupted | .delivered _ => True

theorem Allows.not_blank {l : Ledger} {line statement : String} {outcome : LineOutcome}
    (h : l.Allows (.submitted line (some (statement, outcome)))) : Text.isBlankText statement = false := by
  unfold Allows at h
  dsimp only [Option.map] at h
  split at h
  · cases h
  · rename_i hblank
    cases h
    simpa using hblank

/-- A chronicle leads from one ledger to another one. -/
inductive Leads : Ledger → Chronicle → Ledger → Prop where
  | nil (l : Ledger) : Leads l [] l
  | cons {l l' : Ledger} {deed : Deed} {c : Chronicle} (hdeed : l.Allows deed) (hrest : Leads (l.after deed) c l') :
      Leads l (deed :: c) l'

theorem Leads.none {l l' : Ledger} (h : l' = l) : l.Leads [] l' :=
  h ▸ .nil l

theorem Leads.single {l l' : Ledger} {deed : Deed} (hdeed : l.Allows deed) (h : l' = l.after deed) :
    l.Leads [deed] l' :=
  .cons hdeed (.none h)

theorem Leads.append {l l' l'' : Ledger} {c d : Chronicle} (hc : l.Leads c l') (hd : l'.Leads d l'') :
    l.Leads (c ++ d) l'' := by
  induction hc with
  | nil => exact hd
  | cons hdeed _ ih => exact .cons hdeed (ih hd)

theorem Leads.split {l l'' : Ledger} {c d : Chronicle} (h : l.Leads (c ++ d) l'') :
    ∃ l', l.Leads c l' ∧ l'.Leads d l'' := by
  induction c generalizing l with
  | nil => exact ⟨l, .nil l, h⟩
  | cons deed c ih =>
      cases h with
      | cons hdeed hrest =>
          obtain ⟨l', hc, hd⟩ := ih hrest
          exact ⟨l', .cons hdeed hc, hd⟩

/-- What the ledger holds at the end of a chronicle. -/
structure Sums (capacity : Nat) (c : Chronicle) (l : Ledger) : Prop where
  committed : l.committed = ended c.pending
  capacity : l.history.capacity = capacity
  history : l.history.Holds c.entries

namespace Sums

variable {capacity : Nat} {c d : Chronicle} {l l' : Ledger} {deed : Deed}

theorem allows_iff (h : l.Sums capacity c) : l.Allows deed ↔ deed.Faithful c := by
  cases deed with
  | submitted line call => rw [Allows, Deed.Faithful, h.committed]
  | interrupted => exact Iff.rfl
  | delivered older => exact Iff.rfl

/-- A deed that is no completed statement and brings nothing leaves the entries as they are. -/
theorem same_history (h : l.Sums capacity c) (hcompleted : deed.completed? = none) (holder : deed.older = []) :
    l.history.Holds (Chronicle.entries (c ++ [deed])) := by
  have hsame : Chronicle.entries (c ++ [deed]) = c.entries := by
    simp [Chronicle.entries, hcompleted, holder]
  rw [hsame]
  exact h.history

theorem after (h : l.Sums capacity c) (hdeed : l.Allows deed) : (l.after deed).Sums capacity (c ++ [deed]) := by
  have hpending : Chronicle.pending (c ++ [deed]) = deed.pend c.pending := by
    simp [Chronicle.pending]
  cases deed with
  | interrupted => exact ⟨by rw [hpending]; rfl, h.capacity, h.same_history rfl rfl⟩
  | delivered older =>
      refine ⟨by rw [hpending]; exact h.committed, h.capacity, ?_⟩
      have hentries : Chronicle.entries (c ++ [.delivered older]) = c.entries ++ older := by
        simp [Chronicle.entries, Deed.completed?, Deed.older]
      rw [hentries]
      exact h.history.install older
  | submitted line call =>
      cases call with
      | none => exact ⟨by rw [hpending]; rfl, h.capacity, h.same_history rfl rfl⟩
      | some call =>
          obtain ⟨statement, outcome⟩ := call
          cases outcome with
          | needsAnotherLine =>
              refine ⟨?_, h.capacity, h.same_history rfl rfl⟩
              rw [hpending]
              change l.committed ++ line ++ "\n" = ended (c.pending ++ [line])
              rw [h.committed]
              simp [ended, String.append_assoc]
          | output text =>
              have hblank : Text.isBlankText statement = false := hdeed.not_blank
              have hentries : Chronicle.entries (c ++ [.submitted line (some (statement, .output text))]) =
                  History.recorded [statement] ++ c.entries := by
                simp [Chronicle.entries, Deed.completed?, Deed.older, History.recorded_of_not_blank hblank]
              refine ⟨by rw [hpending]; rfl, (History.capacity_append _ _).trans h.capacity, ?_⟩
              rw [hentries]
              exact h.history.append statement

end Sums

theorem Leads.sums {capacity : Nat} {c d : Chronicle} {l l' : Ledger} (h : l.Leads d l') (hl : l.Sums capacity c) :
    l'.Sums capacity (c ++ d) := by
  induction h generalizing c with
  | nil => simpa using hl
  | cons hdeed _ ih => simpa using ih (hl.after hdeed)

theorem Leads.faithful {capacity : Nat} {c : Chronicle} {l l' : Ledger} (h : l.Leads c l') (hl : l.Sums capacity []) :
    c.Faithful := by
  rintro before deed later rfl
  obtain ⟨middle, hbefore, hlater⟩ := h.split
  have hsums : middle.Sums capacity before := hbefore.sums hl
  cases hlater with
  | cons hdeed _ => exact hsums.allows_iff.mp hdeed

end Ledger

end ScriptRepl.Console
