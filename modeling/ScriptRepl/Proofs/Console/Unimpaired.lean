import ScriptRepl.Proofs.Console.Saving

/-! A history does not show what becomes of its file. A store whose writes wait in a queue is on its way to a store that
writes at once: settling it commutes with every call, and a write that the writer works off settles nothing anew.
Leaving the file out commutes with the calls as well. -/
namespace ScriptRepl.Console

/-! ### Calls and their answers -/

/-- What a history is called for, or a turn of the writer between two calls. -/
inductive HistoryCall where
  | use (u : Use)
  | search (needle : String)
  | containing (needle : String)

inductive HistoryReply where
  | done
  | entry (e : Option String)
  | entries (es : List String)
  deriving DecidableEq, Repr

namespace HistoryCall

/-- The writer does nothing for a caller. -/
def isWriter : HistoryCall → Bool
  | use .workOff => true
  | _ => false

/-- The calls alone. -/
def proper (calls : List HistoryCall) : List HistoryCall :=
  calls.filter fun c => !c.isWriter

end HistoryCall

namespace HistoryStore

def reply (s : HistoryStore) : HistoryCall → HistoryReply
  | .use .previous => .entry (s.walk History.previous).1
  | .use .next => .entry (s.walk History.next).1
  | .use (.append _) | .use (.install _) | .use .endRecall | .use .workOff => .done
  | .search needle => .entry (s.history.search needle)
  | .containing needle => .entries (s.history.containing needle)

def call (s : HistoryStore) : HistoryCall → HistoryStore
  | .use u => s.use u
  | .search _ | .containing _ => s

/-- Calls in turn, with the replies to them. -/
def run (s : HistoryStore) : List HistoryCall → List HistoryReply × HistoryStore
  | [] => ([], s)
  | c :: cs =>
    let (replies, last) := (s.call c).run cs
    (if c.isWriter then replies else s.reply c :: replies, last)

/-- Where calls commute with a change of the store that does not see the writer, the changed store is called with the
same replies, without the writer. -/
theorem run_commutes {change : HistoryStore → HistoryStore} {P : HistoryStore → Prop}
    (hkeep : ∀ s c, P s → P (s.call c)) (hhistory : ∀ s, (change s).history = s.history)
    (hcall : ∀ s c, P s → c.isWriter = false → change (s.call c) = (change s).call c)
    (hwriter : ∀ s, P s → change (s.use .workOff) = change s) {s : HistoryStore} (h : P s)
    (calls : List HistoryCall) :
    (change s).run (HistoryCall.proper calls) = ((s.run calls).1, change (s.run calls).2) := by
  have hreply (s : HistoryStore) (c : HistoryCall) : (change s).reply c = s.reply c := by
    cases c with
    | use u => cases u <;> simp only [reply, walk, hhistory]
    | search needle => simp only [reply, hhistory]
    | containing needle => simp only [reply, hhistory]
  induction calls generalizing s with
  | nil => rfl
  | cons c calls ih =>
      have hrest := ih (hkeep s c h)
      cases hc : c.isWriter with
      | true =>
          obtain rfl : c = .use .workOff := by
            unfold HistoryCall.isWriter at hc
            split at hc
            · rfl
            · cases hc
          have hsame : change (s.call (.use .workOff)) = change s := hwriter s h
          rw [hsame] at hrest
          simpa [HistoryCall.proper, run, HistoryCall.isWriter] using hrest
      | false =>
          have hproper : HistoryCall.proper (c :: calls) = c :: HistoryCall.proper calls := by
            simp [HistoryCall.proper, hc]
          rw [hcall s c h hc] at hrest
          simp only [hproper, run, hrest, hreply, hc]

end HistoryStore

/-! ### Without the file -/

namespace HistoryStore

/-- The history in memory alone. -/
def forgetFile (s : HistoryStore) : HistoryStore :=
  { s with backing := none }

theorem forgetFile_call (s : HistoryStore) (c : HistoryCall) : (s.call c).forgetFile = s.forgetFile.call c := by
  cases c with
  | use u =>
      cases u with
      | append line =>
          dsimp only [call, use, append, forgetFile, save]
          split <;> rfl
      | install older =>
          dsimp only [call, use, install, forgetFile, save]
          split <;> rfl
      | previous => rfl
      | next => rfl
      | endRecall => rfl
      | workOff => rfl
  | search needle => rfl
  | containing needle => rfl

theorem run_forgetFile (s : HistoryStore) (calls : List HistoryCall) :
    s.forgetFile.run (HistoryCall.proper calls) = ((s.run calls).1, (s.run calls).2.forgetFile) := by
  apply run_commutes (P := fun _ => True)
  · exact fun _ _ _ => trivial
  · exact fun _ => rfl
  · exact fun s c _ _ => forgetFile_call s c
  · exact fun _ _ => rfl
  · trivial

end HistoryStore

/-! ### Without the queue -/

namespace Backing

theorem queue_workOff (b : Backing) : b.workOff.queue = b.queue.tail := by
  unfold workOff
  split
  · rename_i hqueue
    rw [hqueue, List.tail_nil]
  · rename_i content queue hqueue
    rw [hqueue, List.tail_cons]
    dsimp only
    split <;> rfl

theorem drain_of_nil {b : Backing} (h : b.queue = []) : b.drain = b := by
  rw [drain, h, List.foldl_nil]

theorem drain_workOff (b : Backing) : b.workOff.drain = b.drain := by
  cases hqueue : b.queue with
  | nil => rw [workOff, hqueue]
  | cons content queue =>
      have hrest : b.workOff.queue = queue := by rw [queue_workOff, hqueue, List.tail_cons]
      rw [drain, hrest, drain, hqueue, List.foldl_cons]

/-- What every turn of the writer keeps holds when it is done. -/
theorem drain_keeps {P : Backing → Prop} (hturn : ∀ b, P b → P b.workOff) {b : Backing} (h : P b) : P b.drain := by
  induction hlength : b.queue.length generalizing b with
  | zero => rwa [drain_of_nil (List.length_eq_zero_iff.mp hlength)]
  | succ n ih =>
      rw [← drain_workOff]
      apply ih (hturn b h)
      rw [queue_workOff, List.length_tail, hlength, Nat.add_sub_cancel]

/-- One more content at the end of the queue is written after all others, unless one of them could not be. -/
theorem drain_push (b : Backing) (content : String) :
    ({ b with queue := b.queue ++ [content] } : Backing).drain =
      if b.drain.enabled then b.drain.write content else b.drain := by
  induction hlength : b.queue.length generalizing b with
  | zero =>
      have hqueue : b.queue = [] := List.length_eq_zero_iff.mp hlength
      have hworked : ({ b with queue := [content] } : Backing).workOff.queue = [] := by
        rw [queue_workOff, List.tail_cons]
      have hempty : ({ b with queue := [] } : Backing) = b := by rw [← hqueue]
      rw [drain_of_nil hqueue, hqueue, List.nil_append, ← drain_workOff, drain_of_nil hworked, workOff]
      simp only [hempty]
  | succ n ih =>
      obtain ⟨next, queue, hqueue⟩ := List.exists_cons_of_length_eq_add_one hlength
      have hnext : ({ b with queue := b.queue ++ [content] } : Backing).workOff =
          { b.workOff with queue := b.workOff.queue ++ [content] } := by
        rw [queue_workOff, hqueue]
        simp only [workOff, hqueue, List.cons_append, List.tail_cons]
        split <;> rfl
      have hlast : b.workOff.queue.length = n := by rw [queue_workOff, List.length_tail, hlength, Nat.add_sub_cancel]
      rw [← drain_workOff, hnext, ih b.workOff hlast, drain_workOff]

/-- The writer is given all its time, and from then on there is none. -/
def settled (b : Backing) : Backing :=
  { b.drain with queued := false }

/-- Nothing waits where there is no writer. -/
def Idle (b : Backing) : Prop :=
  b.queued = false → b.queue = []

theorem queued_workOff (b : Backing) : b.workOff.queued = b.queued := by
  unfold workOff
  split
  · rfl
  · dsimp only
    split <;> rfl

theorem Idle.workOff {b : Backing} (h : b.Idle) : b.workOff.Idle := by
  intro hqueued
  rw [queued_workOff] at hqueued
  rw [queue_workOff, h hqueued, List.tail_nil]

theorem Idle.save {b : Backing} (h : b.Idle) (entries : List String) : (b.save entries).Idle := by
  unfold Backing.save
  split
  · exact h
  · dsimp only
    split
    · rename_i hqueued
      intro hdirect
      exact absurd hqueued (Bool.eq_false_iff.mp hdirect)
    · exact h

theorem installed_drain (b : Backing) : b.drain.installed = b.installed :=
  drain_keeps (P := fun c => c.installed = b.installed) (fun c hc => (installed_workOff c).trans hc) rfl

theorem enabled_workOff {b : Backing} (h : b.enabled = false) :
    b.workOff.enabled = false ∧ b.workOff.disk = b.disk := by
  unfold workOff
  split
  · exact ⟨h, rfl⟩
  · dsimp only
    rw [h, if_neg Bool.false_ne_true]
    exact ⟨rfl, rfl⟩

theorem enabled_drain {b : Backing} (h : b.enabled = false) : b.drain.enabled = false ∧ b.drain.disk = b.disk := by
  apply drain_keeps (P := fun c => c.enabled = false ∧ c.disk = b.disk)
  · rintro c ⟨hc, hdisk⟩
    obtain ⟨hoff, hkept⟩ := enabled_workOff hc
    exact ⟨hoff, hkept.trans hdisk⟩
  · exact ⟨h, rfl⟩

theorem save_of_disabled {b : Backing} (h : b.enabled = false) (entries : List String) : b.save entries = b := by
  unfold save
  rw [h, Bool.not_false, Bool.or_true, if_pos rfl]

theorem settled_workOff (b : Backing) : b.workOff.settled = b.settled := by
  rw [settled, settled, drain_workOff]

theorem save_of_early {b : Backing} (h : b.installed = false) (entries : List String) : b.save entries = b := by
  unfold save
  rw [h, Bool.not_false, Bool.true_or, if_pos rfl]

theorem save_of_queued {b : Backing} (hinstalled : b.installed = true) (henabled : b.enabled = true)
    (hqueued : b.queued = true) (entries : List String) :
    b.save entries = { b with queue := b.queue ++ [HistoryFile.render entries] } := by
  unfold save
  rw [hinstalled, henabled, if_neg (by decide), if_pos hqueued]

theorem save_of_direct {b : Backing} (hinstalled : b.installed = true) (henabled : b.enabled = true)
    (hdirect : b.queued = false) (entries : List String) : b.save entries = b.write (HistoryFile.render entries) := by
  unfold save
  rw [hinstalled, henabled, if_neg (by decide), if_neg (Bool.eq_false_iff.mp hdirect)]

/-- What is saved once the writer is done is written at once, unless a write has failed by then. -/
theorem settled_push (b : Backing) (content : String) :
    settled { b with queue := b.queue ++ [content] } =
      if b.drain.enabled then b.settled.write content else b.settled := by
  unfold settled
  rw [drain_push]
  split <;> rfl

theorem settled_save {b : Backing} (h : b.Idle) (entries : List String) :
    (b.save entries).settled = b.settled.save entries := by
  have hinstalled : b.settled.installed = b.installed := b.installed_drain
  cases hloaded : b.installed with
  | false => rw [save_of_early hloaded, save_of_early (hinstalled.trans hloaded)]
  | true =>
      rw [hloaded] at hinstalled
      cases henabled : b.enabled with
      | false =>
          have hdisabled : b.settled.enabled = false := (enabled_drain henabled).1
          rw [save_of_disabled henabled, save_of_disabled hdisabled]
      | true =>
          cases hqueued : b.queued with
          | true =>
              rw [save_of_queued hloaded henabled hqueued, settled_push]
              cases hdrained : b.drain.enabled with
              | true => rw [if_pos rfl, save_of_direct hinstalled hdrained rfl]
              | false =>
                  have hdisabled : b.settled.enabled = false := hdrained
                  rw [if_neg Bool.false_ne_true, save_of_disabled hdisabled]
          | false =>
              have hsettled {c : Backing} (hqueue : c.queue = []) : c.settled = { c with queued := false } := by
                rw [settled, drain_of_nil hqueue]
              have henabled' : b.settled.enabled = true := by rw [hsettled (h hqueued), henabled]
              have hwritten : (b.write (HistoryFile.render entries)).queue = [] := h hqueued
              rw [save_of_direct hloaded henabled hqueued, save_of_direct hinstalled henabled' rfl, hsettled hwritten,
                hsettled (h hqueued)]
              rfl

theorem settled_installed (b : Backing) :
    settled { b with installed := true } = { b.settled with installed := true } := by
  induction hlength : b.queue.length generalizing b with
  | zero =>
      have hqueue : b.queue = [] := List.length_eq_zero_iff.mp hlength
      rw [settled, settled, drain_of_nil hqueue, drain_of_nil (b := { b with installed := true }) hqueue]
  | succ n ih =>
      have hnext : ({ b with installed := true } : Backing).workOff = { b.workOff with installed := true } := by
        unfold workOff
        dsimp only
        split
        · rfl
        · split <;> rfl
      rw [← settled_workOff, hnext, ih b.workOff, settled_workOff]
      rw [queue_workOff, List.length_tail, hlength, Nat.add_sub_cancel]

/-- What has been written to the disk so far is contents in turn, all of them but for the last one if it failed. -/
def Written (disk : Disk) (b : Backing) : Prop :=
  ∃ contents, (b.enabled, b.disk) = disk.writeAll contents

namespace Written

variable {disk : Disk} {b : Backing}

theorem write (h : b.Written disk) (henabled : b.enabled = true) (content : String) (queue : List String) :
    ({ b with queue }.write content).Written disk := by
  obtain ⟨contents, hcontents⟩ := h
  refine ⟨contents ++ [content], ?_⟩
  rw [Disk.writeAll_append, ← hcontents, if_pos henabled, Disk.writeAll_singleton, Backing.write_eq, henabled,
    Bool.true_and]

theorem save (h : b.Written disk) (entries : List String) : (b.save entries).Written disk := by
  cases hloaded : b.installed with
  | false => rwa [save_of_early hloaded]
  | true =>
      cases henabled : b.enabled with
      | false => rwa [save_of_disabled henabled]
      | true =>
          cases hqueued : b.queued with
          | true =>
              rw [save_of_queued hloaded henabled hqueued]
              exact h
          | false =>
              rw [save_of_direct hloaded henabled hqueued]
              exact h.write henabled _ b.queue

theorem workOff (h : b.Written disk) : b.workOff.Written disk := by
  unfold Backing.workOff
  split
  · exact h
  · dsimp only
    split
    · rename_i henabled
      exact h.write henabled _ _
    · exact h

end Written

end Backing

/-! ### What every call keeps -/

namespace HistoryStore

/-- The entries of a file have been put behind those of the history, and nothing is saved yet. -/
def installed (s : HistoryStore) (older : List String) : HistoryStore :=
  { history := s.history.install older, backing := s.backing.map fun b => { b with installed := true } }

theorem use_append (s : HistoryStore) (line : String) :
    s.use (.append line) =
      if Text.isBlankText (History.oneLine line) then s else save { s with history := s.history.append line } :=
  rfl

theorem use_install (s : HistoryStore) (older : List String) :
    s.use (.install older) = if s.history.entries.isEmpty then s.installed older else (s.installed older).save :=
  rfl

/-- The history has a file, of which `P` holds. -/
def Backed (P : Backing → Prop) (s : HistoryStore) : Prop :=
  ∃ b, s.backing = some b ∧ P b

/-- A property of files that saving, installing and the writer keep. -/
structure Kept (P : Backing → Prop) : Prop where
  save : ∀ {b}, P b → ∀ entries, P (b.save entries)
  installed : ∀ {b}, P b → P { b with installed := true }
  workOff : ∀ {b}, P b → P b.workOff

theorem kept_idle : Kept Backing.Idle where
  save := Backing.Idle.save
  installed h := h
  workOff := Backing.Idle.workOff

theorem kept_written (disk : Disk) : Kept (Backing.Written disk) where
  save := Backing.Written.save
  installed h := h
  workOff := Backing.Written.workOff

/-- After a write that failed nothing is written. -/
theorem kept_disabled (disk : Disk) : Kept fun b => b.enabled = false ∧ b.disk = disk where
  save h entries := by rwa [Backing.save_of_disabled h.1]
  installed h := h
  workOff h := ⟨(Backing.enabled_workOff h.1).1, (Backing.enabled_workOff h.1).2.trans h.2⟩

variable {P : Backing → Prop} {s : HistoryStore}

theorem Backed.map (h : s.Backed P) {change : Backing → Backing} (hchange : ∀ {b}, P b → P (change b))
    (history : History) : Backed P { history, backing := s.backing.map change } := by
  obtain ⟨b, hbacking, hb⟩ := h
  refine ⟨change b, ?_, hchange hb⟩
  rw [hbacking, Option.map_some]

theorem Backed.call (h : s.Backed P) (hkept : Kept P) (c : HistoryCall) : (s.call c).Backed P := by
  have hsave {s : HistoryStore} (h : s.Backed P) : s.save.Backed P := h.map (fun hb => hkept.save hb _) _
  cases c with
  | search needle => exact h
  | containing needle => exact h
  | use u =>
      rw [HistoryStore.call]
      cases u with
      | append line =>
          have happended : Backed P { s with history := s.history.append line } := h
          rw [use_append]
          split
          · exact h
          · exact hsave happended
      | install older =>
          have hinstalled : (s.installed older).Backed P := h.map hkept.installed _
          rw [use_install]
          split
          · exact hinstalled
          · exact hsave hinstalled
      | previous => exact h
      | next => exact h
      | endRecall => exact h
      | workOff => exact h.map hkept.workOff s.history

theorem Backed.run (h : s.Backed P) (hkept : Kept P) (calls : List HistoryCall) : (s.run calls).2.Backed P := by
  induction calls generalizing s with
  | nil => exact h
  | cons c calls ih => exact ih (h.call hkept c)

/-! ### Without the queue -/

/-- The history with its file once the writer is done, from then on without a writer. -/
def settled (s : HistoryStore) : HistoryStore :=
  { s with backing := s.backing.map Backing.settled }

theorem settled_save (h : s.Backed Backing.Idle) : s.save.settled = s.settled.save := by
  obtain ⟨b, hbacking, hb⟩ := h
  have hsaved : (s.backing.map (·.save s.history.entries)).map Backing.settled =
      (s.backing.map Backing.settled).map (·.save s.history.entries) := by
    rw [hbacking, Option.map_some, Option.map_some, Option.map_some, Option.map_some, Backing.settled_save hb]
  exact congrArg (HistoryStore.mk s.history) hsaved

theorem settled_installed (s : HistoryStore) (older : List String) :
    (s.installed older).settled = s.settled.installed older := by
  unfold settled installed
  dsimp only
  rw [Option.map_map, Option.map_map]
  exact congrArg _ (Option.map_congr fun b _ => b.settled_installed)

theorem settled_call (h : s.Backed Backing.Idle) {c : HistoryCall} (hc : c.isWriter = false) :
    (s.call c).settled = s.settled.call c := by
  cases c with
  | search needle => rfl
  | containing needle => rfl
  | use u =>
      rw [call, call]
      cases u with
      | append line =>
          rw [use_append, use_append]
          split
          · rfl
          · exact settled_save (s := { s with history := s.history.append line }) h
      | install older =>
          have hinstalled : (s.installed older).Backed Backing.Idle := h.map kept_idle.installed _
          rw [use_install, use_install]
          change settled (if s.history.entries.isEmpty then _ else _) = if s.history.entries.isEmpty then _ else _
          split
          · exact s.settled_installed older
          · rw [settled_save hinstalled, settled_installed]
      | previous => rfl
      | next => rfl
      | endRecall => rfl
      | workOff => cases hc

theorem settled_writer (s : HistoryStore) : (s.use .workOff).settled = s.settled := by
  unfold settled use
  dsimp only
  rw [Option.map_map]
  exact congrArg _ (Option.map_congr fun b _ => b.settled_workOff)

/-- With and without a writer the calls get the same replies, and at any time the writer has only to go on to leave what
a store without it has left by then. -/
theorem run_settled (h : s.Backed Backing.Idle) (calls : List HistoryCall) :
    s.settled.run (HistoryCall.proper calls) = ((s.run calls).1, (s.run calls).2.settled) := by
  apply run_commutes (P := Backed Backing.Idle)
  · exact fun _ c hs => hs.call kept_idle c
  · exact fun _ => rfl
  · exact fun _ _ hs hc => settled_call hs hc
  · exact fun s _ => settled_writer s
  · exact h

/-! ### The file and the history -/

theorem isPersistent_disk {b : Backing} (h : s.backing = some b) : s.isPersistent = b.enabled ∧ s.disk = b.disk := by
  unfold isPersistent HistoryStore.disk
  rw [h]
  exact ⟨rfl, rfl⟩

/-- Whatever a disk does, with a writer or without, and wherever its turns fall between the calls: the calls are
answered as by a history in memory, and the entries and the walk through them are the same. What is written is
contents in turn until one of them cannot be written, and nothing from then on. Once the writer is done the disk is
as the calls leave it without a writer. -/
theorem run_despite_disk (disk : Disk) (capacity : Nat) (queued : Bool) (calls : List HistoryCall) :
    let memory := (inMemory capacity).run (HistoryCall.proper calls)
    let direct := (onDisk disk capacity).run (HistoryCall.proper calls)
    let kept := (onDisk disk capacity queued).run calls
    kept.1 = memory.1 ∧ kept.2.history = memory.2.history ∧
      (∃ contents, (kept.2.isPersistent, kept.2.disk) = disk.writeAll contents) ∧
      (kept.2.isPersistent = true ∨ ∀ more, (kept.2.run more).2.disk = kept.2.disk) ∧
      kept.2.close.disk = direct.2.disk ∧ kept.2.close.isPersistent = direct.2.isPersistent := by
  intro memory direct kept
  have hstart {P : Backing → Prop} (hP : P { disk, queued }) : (onDisk disk capacity queued).Backed P := ⟨_, rfl, hP⟩
  have hmemory : memory = (kept.1, kept.2.forgetFile) := run_forgetFile (onDisk disk capacity queued) calls
  have hdirect : direct = (kept.1, kept.2.settled) := run_settled (hstart fun _ => rfl) calls
  obtain ⟨b, hbacking, contents, hcontents⟩ := (hstart ⟨[], rfl⟩).run (kept_written disk) calls
  obtain ⟨hpersistent, hdisk⟩ := isPersistent_disk hbacking
  have hclosed : kept.2.close.backing = some b.drain := by rw [close, hbacking, Option.map_some]
  have hsettled : kept.2.settled.backing = some b.settled := by rw [settled, hbacking, Option.map_some]
  rw [hmemory, hdirect]
  refine ⟨rfl, rfl, ⟨contents, ?_⟩, ?_, ?_, ?_⟩
  · rw [hpersistent, hdisk, hcontents]
  · cases henabled : b.enabled with
    | true => exact .inl (hpersistent.trans henabled)
    | false =>
        right
        intro more
        have hdisabled : kept.2.Backed fun c => c.enabled = false ∧ c.disk = b.disk := ⟨b, hbacking, henabled, rfl⟩
        obtain ⟨c, hlater, -, hsame⟩ := hdisabled.run (kept_disabled b.disk) more
        rw [(isPersistent_disk hlater).2, hsame, hdisk]
  · exact (isPersistent_disk hclosed).2.trans (isPersistent_disk hsettled).2.symm
  · exact (isPersistent_disk hclosed).1.trans (isPersistent_disk hsettled).1.symm

end HistoryStore

end ScriptRepl.Console
