import ScriptRepl.Proofs.Console.Sittings

/-! When a history file is written and when it is not. Of all that is done with a history, only what changes its entries
is saved, and the contents that are saved are written in turn until a write fails. Nothing else ends the writing: that
the file could not be read does not, so that the first write that succeeds takes its place. -/
namespace ScriptRepl.Console

/-! ### Writes in turn -/

namespace Disk

/-- Writes contents in turn until one cannot be written. The answer says whether all of them were. -/
def writeAll (d : Disk) : List String → Bool × Disk
  | [] => (true, d)
  | content :: contents =>
    if (d.write content).1 then (d.write content).2.writeAll contents else d.write content

variable {d : Disk}

theorem writeAll_append (a b : List String) :
    d.writeAll (a ++ b) = if (d.writeAll a).1 then (d.writeAll a).2.writeAll b else d.writeAll a := by
  induction a generalizing d with
  | nil => rfl
  | cons content a ih =>
      rw [List.cons_append, writeAll, writeAll, ih]
      by_cases hwritten : (d.write content).1 = true
      · rw [if_pos hwritten, if_pos hwritten]
      · rw [if_neg hwritten, if_neg hwritten, if_neg hwritten]

theorem writeAll_singleton (content : String) : d.writeAll [content] = d.write content := by
  rw [writeAll]
  split
  · rename_i hwritten
    exact Prod.ext hwritten.symm rfl
  · rfl

end Disk

/-! ### What is done with a history -/

/-- What can be done with a history that has a file: besides its own operations, the writer may work off a write that
waits for it. -/
inductive Use where
  | append (line : String)
  | install (older : List String)
  | previous
  | next
  | endRecall
  | workOff

namespace Use

/-- The contents of the file that a use saves. -/
def saved (h : History) : Use → List String
  | append line =>
    if Text.isBlankText (History.oneLine line) then [] else [HistoryFile.render (h.append line).entries]
  | install older => if h.entries.isEmpty then [] else [HistoryFile.render (h.install older).entries]
  | previous | next | endRecall | workOff => []

def history (h : History) : Use → History
  | append line => h.append line
  | install older => h.install older
  | previous => h.previous.2
  | next => h.next.2
  | endRecall => h.endRecall
  | workOff => h

/-- The contents that uses in turn save. -/
def allSaved (h : History) : List Use → List String
  | [] => []
  | u :: us => u.saved h ++ allSaved (u.history h) us

end Use

namespace HistoryStore

def use (s : HistoryStore) : Use → HistoryStore
  | .append line => s.append line
  | .install older => s.install older
  | .previous => (s.walk History.previous).2
  | .next => (s.walk History.next).2
  | .endRecall => s.endRecall
  | .workOff => { s with backing := s.backing.map Backing.workOff }

def uses (s : HistoryStore) (us : List Use) : HistoryStore :=
  us.foldl use s

theorem history_use (s : HistoryStore) (u : Use) : (s.use u).history = u.history s.history := by
  cases u with
  | append line => exact s.history_append line
  | install older => exact s.history_install older
  | previous => rfl
  | next => rfl
  | endRecall => rfl
  | workOff => rfl

end HistoryStore

/-! ### What has been written -/

theorem Backing.write_eq (b : Backing) (content : String) :
    b.write content =
      { b with disk := (b.disk.write content).2, enabled := b.enabled && (b.disk.write content).1 } :=
  rfl

/-- Of the contents that were saved, those that the writer has come to have been written in turn, and the others wait
in the queue unless a write has failed. -/
structure Backing.Follows (disk : Disk) (queued : Bool) (contents : List String) (b : Backing) : Prop where
  installed : b.installed = true
  queued_eq : b.queued = queued
  direct : queued = false → b.queue = []
  written : ∃ taken, taken <+: contents ∧ (b.enabled, b.disk) = disk.writeAll taken ∧
    (b.enabled = true → contents = taken ++ b.queue)

namespace Backing.Follows

variable {disk : Disk} {queued : Bool} {contents : List String} {b : Backing}

/-- The next content is written, or it is too late for it. -/
theorem write (h : b.Follows disk queued contents) (henabled : b.enabled = true) {content : String} {queue : List String}
    (hdirect : queued = false → queue = []) {contents' : List String}
    (hcontents : ∀ taken, contents = taken ++ b.queue → contents' = taken ++ content :: queue) :
    ({ b with queue }.write content).Follows disk queued contents' := by
  obtain ⟨taken, -, hwritten, hqueue⟩ := h.written
  have hsplit := hcontents taken (hqueue henabled)
  have hall : disk.writeAll taken = (true, b.disk) := by rw [← hwritten, henabled]
  have hnext : disk.writeAll (taken ++ [content]) = b.disk.write content := by
    rw [Disk.writeAll_append, hall, if_pos rfl, Disk.writeAll_singleton]
  refine ⟨h.installed, h.queued_eq, hdirect, taken ++ [content], ⟨queue, ?_⟩, ?_, fun _ => ?_⟩
  · rw [hsplit, List.append_assoc]
    rfl
  · rw [hnext, Backing.write_eq, henabled, Bool.true_and]
  · rw [hsplit, List.append_assoc]
    rfl

theorem save (h : b.Follows disk queued contents) (entries : List String) :
    (b.save entries).Follows disk queued (contents ++ [HistoryFile.render entries]) := by
  obtain ⟨taken, hprefix, hwritten, hqueue⟩ := h.written
  have hlonger : taken <+: contents ++ [HistoryFile.render entries] := hprefix.trans (List.prefix_append ..)
  unfold Backing.save
  cases henabled : b.enabled with
  | false =>
      rw [if_pos (by simp)]
      refine ⟨h.installed, h.queued_eq, h.direct, taken, hlonger, hwritten, ?_⟩
      intro htrue
      rw [henabled] at htrue
      cases htrue
  | true =>
      rw [if_neg (by simp [h.installed])]
      dsimp only
      split
      · rename_i hqueued
        have hdirect : queued = false → b.queue ++ [HistoryFile.render entries] = [] := by
          intro hdirect
          rw [h.queued_eq, hdirect] at hqueued
          cases hqueued
        refine ⟨h.installed, h.queued_eq, hdirect, taken, hlonger, ?_, fun _ => ?_⟩
        · rw [← hwritten, henabled]
        · rw [hqueue henabled, List.append_assoc]
      · rename_i hqueued
        have hidle : b.queue = [] := h.direct (by simpa [h.queued_eq] using hqueued)
        have hnext : ({ b with queue := [] }.write (HistoryFile.render entries)).Follows disk queued
            (contents ++ [HistoryFile.render entries]) := by
          refine h.write henabled (fun _ => rfl) fun taken hcontents => ?_
          rw [hcontents, hidle, List.append_nil]
        rwa [show ({ b with queue := [] } : Backing) = b by rw [← hidle]] at hnext

theorem workOff (h : b.Follows disk queued contents) : b.workOff.Follows disk queued contents := by
  unfold Backing.workOff
  split
  · exact h
  · rename_i content queue hcons
    have hdirect : queued = false → queue = [] := by
      intro hqueued
      rw [h.direct hqueued] at hcons
      cases hcons
    dsimp only
    split
    · rename_i henabled
      refine h.write henabled hdirect fun taken hcontents => ?_
      rw [hcontents, hcons]
    · rename_i henabled
      obtain ⟨taken, hprefix, hwritten, _⟩ := h.written
      exact ⟨h.installed, h.queued_eq, hdirect, taken, hprefix, hwritten, fun htrue => absurd htrue henabled⟩

end Backing.Follows

namespace HistoryStore

/-- What uses of a history save is written to its path. -/
def Follows (disk : Disk) (queued : Bool) (contents : List String) (s : HistoryStore) : Prop :=
  ∃ b, s.backing = some b ∧ b.Follows disk queued contents

variable {disk : Disk} {queued : Bool} {contents : List String} {s : HistoryStore}

theorem Follows.save (h : s.Follows disk queued contents) :
    s.save.Follows disk queued (contents ++ [HistoryFile.render s.history.entries]) := by
  obtain ⟨b, hbacking, hb⟩ := h
  refine ⟨b.save s.history.entries, ?_, hb.save _⟩
  change s.backing.map _ = _
  rw [hbacking]
  rfl

/-- What is installed is saved if there was an entry before. -/
theorem follows_install {b : Backing} (hbacking : s.backing = some b)
    (hb : ({ b with installed := true } : Backing).Follows disk queued contents) (older : List String) :
    (s.install older).Follows disk queued (contents ++ (Use.install older).saved s.history) := by
  have hinstalled : s.backing.map (fun b => { b with installed := true }) = some { b with installed := true } := by
    rw [hbacking]
    rfl
  unfold install
  dsimp only [Use.saved]
  by_cases hempty : s.history.entries.isEmpty = true
  · rw [if_pos hempty, if_pos hempty, List.append_nil]
    exact ⟨_, hinstalled, hb⟩
  · rw [if_neg hempty, if_neg hempty]
    exact Follows.save (s := { history := s.history.install older, backing := _ }) ⟨_, hinstalled, hb⟩

theorem Follows.use (h : s.Follows disk queued contents) (u : Use) :
    (s.use u).Follows disk queued (contents ++ u.saved s.history) := by
  obtain ⟨b, hbacking, hb⟩ := h
  cases u with
  | append line =>
      dsimp only [HistoryStore.use, HistoryStore.append, Use.saved]
      by_cases hblank : Text.isBlankText (History.oneLine line) = true
      · rw [if_pos hblank, if_pos hblank, List.append_nil]
        exact ⟨b, hbacking, hb⟩
      · rw [if_neg hblank, if_neg hblank]
        exact Follows.save (s := { s with history := s.history.append line }) ⟨b, hbacking, hb⟩
  | install older => exact follows_install hbacking ⟨rfl, hb.queued_eq, hb.direct, hb.written⟩ older
  | previous => exact ⟨b, hbacking, by rwa [Use.saved, List.append_nil]⟩
  | next => exact ⟨b, hbacking, by rwa [Use.saved, List.append_nil]⟩
  | endRecall => exact ⟨b, hbacking, by rwa [Use.saved, List.append_nil]⟩
  | workOff =>
      refine ⟨b.workOff, ?_, ?_⟩
      · change s.backing.map _ = _
        rw [hbacking]
        rfl
      · rw [Use.saved, List.append_nil]
        exact hb.workOff

theorem Follows.uses (h : s.Follows disk queued contents) (us : List Use) :
    (s.uses us).Follows disk queued (contents ++ Use.allSaved s.history us) := by
  induction us generalizing s contents with
  | nil => simpa [HistoryStore.uses, Use.allSaved] using h
  | cons u us ih =>
      have hrest := ih (h.use u)
      rw [history_use, List.append_assoc] at hrest
      exact hrest

end HistoryStore

end ScriptRepl.Console
