import Mathlib.Data.List.Induction
import ScriptRepl.Proofs.Console.Recorded

/-! A history file from one sitting to the next. Lines may be entered before the file has been read; they come before
the old entries all the same, and nothing is written until the two have been put together. From then on the file, once
the writer has worked off its queue, holds the entries. -/
namespace ScriptRepl.Console

/-! ### Disks without trouble -/

namespace Disk

/-- A path that can be written at any time. -/
structure Reliable (d : Disk) : Prop where
  entry : d.entry ≠ .directory
  failing : ∀ n, d.failing n = false

theorem Reliable.write {d : Disk} (h : d.Reliable) (content : String) :
    d.write content = (true, { d with attempts := d.attempts + 1, entry := .text content }) := by
  simp [Disk.write, h.failing, h.entry]

end Disk

namespace Backing

/-- What the path will lead to once the writer has worked off its queue. -/
def eventual (b : Backing) : FileEntry :=
  b.queue.foldl (fun _ content => .text content) b.disk.entry

/-- Writes succeed, and once they are done the path leads to `entry`. -/
structure Mirrors (b : Backing) (entry : FileEntry) : Prop where
  disk : b.disk.Reliable
  enabled : b.enabled = true
  direct : b.queued = false → b.queue = []
  eventual : b.eventual = entry

theorem installed_workOff (b : Backing) : b.workOff.installed = b.installed := by
  unfold workOff
  split
  · rfl
  · dsimp only
    split <;> rfl

theorem installed_save (b : Backing) (entries : List String) : (b.save entries).installed = b.installed := by
  unfold save
  split
  · rfl
  · dsimp only
    split <;> rfl

theorem workOff_of_cons {b : Backing} {content : String} {queue : List String} (hqueue : b.queue = content :: queue)
    (hdisk : b.disk.Reliable) (henabled : b.enabled = true) :
    b.workOff = { b with queue, disk := { b.disk with attempts := b.disk.attempts + 1, entry := .text content } } := by
  unfold workOff
  split
  · simp_all
  · rename_i first rest hfirst
    obtain ⟨rfl, rfl⟩ : first = content ∧ rest = queue := by simpa [hfirst] using hqueue
    simp [henabled, Backing.write, hdisk.write]

namespace Mirrors

variable {b : Backing} {entry : FileEntry}

theorem workOff (h : b.Mirrors entry) : b.workOff.Mirrors entry ∧ b.workOff.queue = b.queue.tail := by
  cases hqueue : b.queue with
  | nil =>
      have hidle : b.workOff = b := by simp [Backing.workOff, hqueue]
      rw [hidle]
      exact ⟨h, by simp [hqueue]⟩
  | cons content queue =>
      rw [workOff_of_cons hqueue h.disk h.enabled]
      refine ⟨⟨⟨by simp, h.disk.failing⟩, h.enabled, ?_, ?_⟩, rfl⟩
      · intro hdirect
        rw [h.direct hdirect] at hqueue
        cases hqueue
      · rw [← h.eventual]
        unfold Backing.eventual
        rw [hqueue]
        rfl

/-- The queue is worked off in as many turns as there are writes in it. -/
theorem drain (h : b.Mirrors entry) : b.drain.Mirrors entry ∧ b.drain.disk.entry = entry := by
  have hturns : ∀ (queue : List String) (b : Backing), b.Mirrors entry → b.queue.length = queue.length →
      (queue.foldl (fun b _ => b.workOff) b).Mirrors entry ∧ (queue.foldl (fun b _ => b.workOff) b).queue = [] := by
    intro queue
    induction queue with
    | nil => exact fun b hb hlength => ⟨hb, List.length_eq_zero_iff.mp hlength⟩
    | cons content queue ih =>
        intro b hb hlength
        obtain ⟨hworked, htail⟩ := hb.workOff
        exact ih b.workOff hworked (by simp [htail, hlength])
  obtain ⟨hdrained, hqueue⟩ := hturns b.queue b h rfl
  refine ⟨hdrained, ?_⟩
  have heventual : b.drain.eventual = entry := hdrained.eventual
  unfold Backing.eventual at heventual
  rw [show b.drain.queue = [] from hqueue] at heventual
  exact heventual

theorem save (h : b.Mirrors entry) (hinstalled : b.installed = true) (entries : List String) :
    (b.save entries).Mirrors (.text (HistoryFile.render entries)) := by
  unfold Backing.save
  rw [if_neg (by simp [hinstalled, h.enabled])]
  dsimp only
  split
  · rename_i hqueued
    exact ⟨h.disk, h.enabled, by simp [hqueued], by simp [Backing.eventual]⟩
  · rename_i hqueued
    have hidle : b.queue = [] := h.direct (by simpa using hqueued)
    unfold Backing.write
    rw [h.disk.write]
    exact ⟨⟨by simp, h.disk.failing⟩, by simp [h.enabled], fun _ => hidle, by simp [Backing.eventual, hidle]⟩

end Mirrors

end Backing

namespace HistoryFile

/-- What a file that was written holds. -/
theorem load_render {entries : List String} {count : Nat} (hentries : ∀ e ∈ entries, IsEntry e)
    (hcount : entries.length ≤ count) : load { entry := .text (render entries) } count = entries := by
  change (parse (render entries)).take count = entries
  rw [parse_render hentries, List.take_of_length_le hcount]

end HistoryFile

/-! ### Sittings -/

/-- What happens in a sitting: a line is entered, or the writer works off a write that waits for it. -/
inductive Turn where
  | line (text : String)
  | write

def Turn.line? : Turn → Option String
  | line text => some text
  | write => none

namespace HistoryStore

def turn (s : HistoryStore) : Turn → HistoryStore
  | .line text => s.append text
  | .write => { s with backing := s.backing.map Backing.workOff }

def turns (s : HistoryStore) (ts : List Turn) : HistoryStore :=
  ts.foldl turn s

/-- Installs what the file holds. -/
def installFile (s : HistoryStore) : HistoryStore :=
  match s.backing with
  | some b => s.install (HistoryFile.load b.disk s.history.capacity)
  | none => s

/-- The writer works off what is left to it. -/
def close (s : HistoryStore) : HistoryStore :=
  { s with backing := s.backing.map Backing.drain }

/-- The disk under a history; a history in memory has none that anything was written to. -/
def disk (s : HistoryStore) : Disk :=
  (s.backing.map (·.disk)).getD {}

end HistoryStore

/-- A sitting at a history file: what happens before the file has been read, and what happens after that. -/
structure Sitting where
  /-- Writes are left to a background writer. -/
  queued : Bool
  early : List Turn
  late : List Turn

namespace Sitting

/-- The lines that were entered, in turn. -/
def lines (x : Sitting) : List String :=
  (x.early ++ x.late).filterMap Turn.line?

/-- The history when its file is about to be read. -/
def opened (capacity : Nat) (disk : Disk) (x : Sitting) : HistoryStore :=
  (HistoryStore.onDisk disk capacity x.queued).turns x.early

/-- The history at the end. -/
def closed (capacity : Nat) (disk : Disk) (x : Sitting) : HistoryStore :=
  ((x.opened capacity disk).installFile.turns x.late).close

/-- What sittings in turn leave on a disk that was empty. -/
def leave (capacity : Nat) (past : List Sitting) : Disk :=
  past.foldl (fun disk x => (x.closed capacity disk).disk) {}

end Sitting

/-! ### Before and after the file is read -/

namespace HistoryStore

/-- The lines entered so far are the only entries, and nothing was written. -/
structure Early (disk : Disk) (capacity : Nat) (lines : List String) (s : HistoryStore) : Prop where
  room : s.history.capacity = capacity
  holds : s.history.Holds (History.recorded lines)
  backing : ∃ queued, s.backing = some { disk, queued }

/-- The entries are those of all lines entered so far, in all sittings, and the file will hold them. -/
structure Late (capacity : Nat) (lines : List String) (s : HistoryStore) : Prop where
  room : s.history.capacity = capacity
  holds : s.history.Holds (History.recorded lines)
  backing : ∃ b entry, s.backing = some b ∧ b.installed = true ∧ b.Mirrors entry ∧
    HistoryFile.load { entry } capacity = s.history.entries

variable {disk : Disk} {capacity : Nat} {lines : List String} {s : HistoryStore}

theorem Early.turn (h : s.Early disk capacity lines) (t : Turn) :
    (s.turn t).Early disk capacity (lines ++ t.line?.toList) := by
  obtain ⟨queued, hbacking⟩ := h.backing
  cases t with
  | write =>
      refine ⟨h.room, by simpa [Turn.line?, HistoryStore.turn] using h.holds, queued, ?_⟩
      change s.backing.map Backing.workOff = _
      rw [hbacking]
      rfl
  | line text =>
      refine ⟨?_, ?_, queued, ?_⟩
      · change (s.append text).history.capacity = capacity
        rw [history_append, History.capacity_append, h.room]
      · change (s.append text).history.Holds (History.recorded (lines ++ [text]))
        rw [history_append, History.recorded_append]
        exact h.holds.append text
      · change (s.append text).backing = _
        unfold append
        split
        · exact hbacking
        · change s.backing.map _ = _
          rw [hbacking]
          rfl

/-- After a write the file holds the entries. -/
theorem Late.of_save {b : Backing} {entry : FileEntry} (hroom : s.history.capacity = capacity)
    (hholds : s.history.Holds (History.recorded lines)) (hbacking : s.backing = some b)
    (hinstalled : b.installed = true) (hmirrors : b.Mirrors entry) : s.save.Late capacity lines := by
  refine ⟨hroom, hholds, b.save s.history.entries, _, ?_, ?_, hmirrors.save hinstalled _, ?_⟩
  · change s.backing.map _ = _
    rw [hbacking]
    rfl
  · rw [Backing.installed_save, hinstalled]
  · have hentries : s.history.entries = (History.recorded lines).take s.history.capacity := hholds
    refine HistoryFile.load_render ?_ ?_
    · intro e he
      rw [hentries] at he
      exact isEntry_of_recorded (List.mem_of_mem_take he)
    · rw [hentries, List.length_take, hroom]
      omega

theorem Late.turn (h : s.Late capacity lines) (t : Turn) : (s.turn t).Late capacity (lines ++ t.line?.toList) := by
  obtain ⟨b, entry, hbacking, hinstalled, hmirrors, hload⟩ := h.backing
  cases t with
  | write =>
      refine ⟨h.room, by simpa [Turn.line?, HistoryStore.turn] using h.holds, b.workOff, entry, ?_, ?_,
        hmirrors.workOff.1, hload⟩
      · change s.backing.map Backing.workOff = _
        rw [hbacking]
        rfl
      · rw [Backing.installed_workOff, hinstalled]
  | line text =>
      change (s.append text).Late capacity (lines ++ [text])
      have hholds : (s.append text).history.Holds (History.recorded (lines ++ [text])) := by
        rw [history_append, History.recorded_append]
        exact h.holds.append text
      rw [history_append] at hholds
      unfold append
      split
      · rename_i hblank
        exact ⟨h.room, by simpa [History.append, hblank] using hholds, h.backing⟩
      · exact Late.of_save (s := { s with history := s.history.append text })
          ((History.capacity_append _ _).trans h.room) hholds hbacking hinstalled hmirrors

/-- What every turn keeps, with the line that it enters, many turns keep with the lines that they enter. -/
theorem turns_keep {P : List String → HistoryStore → Prop}
    (hturn : ∀ {lines s}, P lines s → ∀ t : Turn, P (lines ++ t.line?.toList) (s.turn t)) (h : P lines s)
    (ts : List Turn) : P (lines ++ ts.filterMap Turn.line?) (s.turns ts) := by
  induction ts generalizing s lines with
  | nil => simpa [turns] using h
  | cons t ts ih =>
      have hrest := ih (hturn h t)
      rw [List.append_assoc] at hrest
      cases t <;> exact hrest

theorem Early.turns (h : s.Early disk capacity lines) (ts : List Turn) :
    (s.turns ts).Early disk capacity (lines ++ ts.filterMap Turn.line?) :=
  turns_keep Early.turn h ts

theorem Late.turns (h : s.Late capacity lines) (ts : List Turn) :
    (s.turns ts).Late capacity (lines ++ ts.filterMap Turn.line?) :=
  turns_keep Late.turn h ts

/-- The old entries come behind the lines that were entered meanwhile. -/
theorem Early.installFile {past : List String} (h : s.Early disk capacity lines) (hdisk : disk.Reliable)
    (hload : HistoryFile.load disk capacity = (History.recorded past).take capacity) :
    s.installFile.Late capacity (past ++ lines) := by
  obtain ⟨queued, hbacking⟩ := h.backing
  have hinstall : s.installFile = s.install ((History.recorded past).take s.history.capacity) := by
    unfold HistoryStore.installFile
    rw [hbacking]
    dsimp only
    rw [h.room, hload]
  have hholds : (s.history.install ((History.recorded past).take s.history.capacity)).Holds
      (History.recorded (past ++ lines)) := by
    rw [History.recorded_append]
    exact h.holds.install_take _
  have hmirrors : ({ disk, queued, installed := true } : Backing).Mirrors disk.entry :=
    ⟨hdisk, rfl, fun _ => rfl, rfl⟩
  have hinstalled : s.backing.map (fun b => { b with installed := true }) =
      some { disk, queued, installed := true } := by
    rw [hbacking]
    rfl
  rw [hinstall]
  unfold install
  rw [hinstalled]
  dsimp only
  split
  · -- Nothing was entered, and nothing is written: the file holds what was installed.
    rename_i hempty
    refine ⟨h.room, hholds, _, disk.entry, rfl, rfl, hmirrors, ?_⟩
    have hnone : s.history.entries = [] := List.isEmpty_iff.mp hempty
    change HistoryFile.load disk capacity = (s.history.entries ++ _).take s.history.capacity
    rw [hload, hnone, List.nil_append, List.take_take, Nat.min_self, h.room]
  · exact Late.of_save h.room hholds rfl rfl hmirrors

/-- When the writer is done the file holds the entries. -/
theorem Late.close (h : s.Late capacity lines) :
    s.close.disk.Reliable ∧ HistoryFile.load s.close.disk capacity = s.close.history.entries := by
  obtain ⟨b, entry, hbacking, _, hmirrors, hload⟩ := h.backing
  obtain ⟨hdrained, hentry⟩ := hmirrors.drain
  have hdisk : s.close.disk = b.drain.disk := by simp [HistoryStore.disk, HistoryStore.close, hbacking]
  rw [hdisk]
  refine ⟨hdrained.disk, ?_⟩
  rw [← hentry] at hload
  exact hload

end HistoryStore

namespace Sitting

open History (recorded)

variable {capacity : Nat} {disk : Disk} {past : List String}

theorem early_opened (capacity : Nat) (disk : Disk) (x : Sitting) :
    (x.opened capacity disk).Early disk capacity (x.early.filterMap Turn.line?) := by
  have hempty : (HistoryStore.onDisk disk capacity x.queued).Early disk capacity [] := by
    refine ⟨rfl, ?_, x.queued, rfl⟩
    exact (List.take_nil ..).symm
  exact hempty.turns x.early

/-- What one sitting makes of the lines of those before it. -/
theorem closed_spec (x : Sitting) (hdisk : disk.Reliable)
    (hload : HistoryFile.load disk capacity = (recorded past).take capacity) :
    let s := x.closed capacity disk
    s.history.entries = (recorded (past ++ x.lines)).take capacity ∧ s.disk.Reliable ∧
      HistoryFile.load s.disk capacity = s.history.entries := by
  have hlate := ((x.early_opened capacity disk).installFile hdisk hload).turns x.late
  rw [List.append_assoc, ← List.filterMap_append] at hlate
  refine ⟨?_, hlate.close⟩
  have hholds := hlate.holds
  unfold History.Holds at hholds
  rw [hlate.room] at hholds
  exact hholds

theorem leave_spec (capacity : Nat) (past : List Sitting) :
    (leave capacity past).Reliable ∧
      HistoryFile.load (leave capacity past) capacity = (recorded (past.flatMap lines)).take capacity := by
  induction past using List.reverseRecOn with
  | nil => exact ⟨⟨by simp [leave], fun _ => rfl⟩, (List.take_nil ..).symm⟩
  | append_singleton past x ih =>
      obtain ⟨hentries, hdisk, hload⟩ := x.closed_spec ih.1 ih.2
      have hleave : leave capacity (past ++ [x]) = (x.closed capacity (leave capacity past)).disk := by
        simp [leave]
      rw [hleave, List.flatMap_append, List.flatMap_singleton]
      exact ⟨hdisk, hload.trans hentries⟩

/-- Beginning without a file, a sitting writes nothing before it has read the file, and at its end the entries are the
newest of the lines of all sittings so far, in the history as well as in the file. -/
theorem sittings_remember (capacity : Nat) (past : List Sitting) (x : Sitting) :
    let disk := leave capacity past
    let s := x.closed capacity disk
    (x.opened capacity disk).disk = disk ∧
      s.history.entries = (recorded ((past ++ [x]).flatMap lines)).take capacity ∧
      HistoryFile.load s.disk capacity = s.history.entries := by
  intro disk s
  obtain ⟨hdisk, hload⟩ := leave_spec capacity past
  obtain ⟨hentries, _, hfile⟩ := x.closed_spec hdisk hload
  obtain ⟨queued, hbacking⟩ := (x.early_opened capacity disk).backing
  refine ⟨?_, ?_, hfile⟩
  · simp [HistoryStore.disk, hbacking]
  · rw [List.flatMap_append, List.flatMap_singleton]
    exact hentries

end Sitting

end ScriptRepl.Console
