import ScriptRepl.Proofs.Console.Alone
import ScriptRepl.Proofs.Console.Cycling
import ScriptRepl.Proofs.Text.Occurrence

/-! What a search through the history shows. Each of its keys looks the entry up again. Entries that are loaded in
between come behind the others and leave an entry that is shown where it is, but a search that shows none is not told
of them. -/
namespace ScriptRepl

namespace Console

namespace History

/-- The entry that a search for a text comes to when it passes over some: the newest entries come first, and there is
nothing behind the oldest one. -/
def sought (h : History) (query : String) (skip : Nat) : Option String :=
  let entries := h.entries.filter fun entry => query.toList <:+: entry.toList
  if query.isEmpty then none else entries[min skip (entries.length - 1)]?

theorem containing_eq (h : History) (query : String) :
    h.containing query = h.entries.filter fun entry => query.toList <:+: entry.toList := by
  unfold containing
  congr 1
  funext entry
  exact Bool.eq_iff_iff.mpr (by simp [Text.occursIn_iff])

theorem sought_empty (h : History) (skip : Nat) : h.sought "" skip = none :=
  rfl

theorem sought_of_ne {query : String} (h : History) (hquery : query ≠ "") (skip : Nat) :
    h.sought query skip = (h.containing query)[min skip ((h.containing query).length - 1)]? := by
  have hnonempty : query.isEmpty = false := by simpa using hquery
  rw [containing_eq, sought, hnonempty]
  rfl

theorem sought_of_lt {query : String} {h : History} (hquery : query ≠ "") {skip : Nat}
    (hskip : skip < (h.containing query).length) : h.sought query skip = (h.containing query)[skip]? := by
  rw [h.sought_of_ne hquery, Nat.min_eq_left (by omega)]

theorem sought_eq_none {query : String} {h : History} (hquery : query ≠ "") {skip : Nat} :
    h.sought query skip = none ↔ h.containing query = [] := by
  rw [h.sought_of_ne hquery, List.getElem?_eq_none_iff]
  refine ⟨fun hlength => List.length_eq_zero_iff.mp (by omega), fun hnone => by simp [hnone]⟩

theorem containing_install {h : History} (hroom : h.entries.length ≤ h.capacity) (older : List String)
    (query : String) :
    ∃ more, (h.install older).containing query = h.containing query ++ more ∧
      ∀ line ∈ more, line ∈ older ∧ query.toList <:+: line.toList := by
  have hentries : (h.install older).entries = h.entries ++ older.take (h.capacity - h.entries.length) := by
    change (h.entries ++ older).take h.capacity = _
    rw [List.take_append, List.take_of_length_le hroom]
  refine ⟨(older.take (h.capacity - h.entries.length)).filter fun entry => query.toList <:+: entry.toList, ?_, ?_⟩
  · rw [containing_eq, containing_eq, hentries, List.filter_append]
  · intro line hline
    obtain ⟨htaken, hcontains⟩ := List.mem_filter.mp hline
    exact ⟨List.mem_of_mem_take htaken, of_decide_eq_true hcontains⟩

end History

/-! ### Searches that are right -/

/-- What a search shows is what it seeks. The number of an entry that is shown is not cut any more, so that it stays
the same when older entries come. -/
structure Search.Right (s : Search) (h : History) : Prop where
  found : s.found = h.sought s.query s.skip
  within : s.found ≠ none → s.skip < (h.containing s.query).length

namespace Search

theorem right_start (h : History) : ({} : Search).Right h :=
  ⟨(h.sought_empty 0).symm, fun hfound => absurd rfl hfound⟩

theorem Right.query_ne {s : Search} {h : History} (hright : s.Right h) (hfound : s.found ≠ none) : s.query ≠ "" := by
  intro hquery
  have hnone := hright.found
  rw [hquery, History.sought_empty] at hnone
  exact hfound hnone

/-- Entries that are loaded make a search wrong only if it found nothing and one of them has its text. -/
theorem Right.install {s : Search} {h : History} (hright : s.Right h) (hroom : h.entries.length ≤ h.capacity)
    (older : List String) :
    s.Right (h.install older) ∨
      s.found = none ∧ h.sought s.query s.skip = none ∧
        ∃ line ∈ older, s.query.toList <:+: line.toList := by
  obtain ⟨more, hcontaining, hmore⟩ := History.containing_install hroom older s.query
  cases hfound : s.found with
  | some entry =>
      have hshown : s.found ≠ none := by simp [hfound]
      have hquery := hright.query_ne hshown
      have hskip := hright.within hshown
      have hskip' : s.skip < ((h.install older).containing s.query).length := by
        rw [hcontaining, List.length_append]
        omega
      refine .inl ⟨?_, fun _ => hskip'⟩
      rw [hright.found, History.sought_of_lt hquery hskip, History.sought_of_lt hquery hskip', hcontaining,
        List.getElem?_append_left hskip]
  | none =>
      have hsought : h.sought s.query s.skip = none := hright.found.symm.trans hfound
      by_cases hnone : (h.install older).sought s.query s.skip = none
      · exact .inl ⟨hfound.trans hnone.symm, fun hshown => absurd hfound hshown⟩
      · have hquery : s.query ≠ "" := by
          intro hempty
          rw [hempty, History.sought_empty] at hnone
          exact hnone rfl
        rw [History.sought_eq_none hquery] at hsought hnone
        rw [hcontaining, hsought, List.nil_append] at hnone
        obtain ⟨line, hline⟩ := List.exists_mem_of_ne_nil more hnone
        exact .inr ⟨rfl, (History.sought_eq_none hquery).mpr hsought, line, hmore line hline⟩

end Search

namespace Engine

theorem right_lookUp (e : Engine) (s : Search) : (e.lookUp s).Right e.history.history := by
  unfold lookUp
  split
  · rename_i hquery
    have hquery : s.query = "" := by simpa using hquery
    refine ⟨?_, fun hfound => absurd rfl hfound⟩
    change none = e.history.history.sought s.query s.skip
    rw [hquery, History.sought_empty]
  · rename_i hquery
    have hquery : s.query ≠ "" := by simpa using hquery
    dsimp only
    split
    · rename_i hnone
      refine ⟨?_, fun hfound => absurd rfl hfound⟩
      exact ((History.sought_eq_none hquery).mpr (List.isEmpty_iff.mp hnone)).symm
    · rename_i hsome
      have hpositive : 0 < (e.history.history.containing s.query).length :=
        List.length_pos_iff.mpr fun h => hsome (List.isEmpty_iff.mpr h)
      have hskip : min s.skip ((e.history.history.containing s.query).length - 1) <
          (e.history.history.containing s.query).length := by omega
      exact ⟨(History.sought_of_lt hquery hskip).symm, fun _ => hskip⟩

/-- If the engine searches, its search is right. -/
def SearchRight (e : Engine) : Prop :=
  ∀ search, e.mode = .search search → search.Right e.history.history

theorem searchRight_of_normal {e : Engine} (h : e.mode = .normal) : e.SearchRight := by
  intro search hmode
  rw [h] at hmode
  cases hmode

/-! ### What a search does not notice -/

/-- Neither the mode nor the history is another one. -/
structure Stays (e e' : Engine) : Prop where
  mode : e'.mode = e.mode
  history : e'.history = e.history

section

variable {e e' : Engine}

theorem Stays.searchRight (h : e.Stays e') (he : e.SearchRight) : e'.SearchRight := by
  intro search hmode
  rw [h.history]
  exact he search (h.mode.symm.trans hmode)

theorem Stays.paint (h : e.Stays e') : e.Stays e'.paint := by
  obtain ⟨screen, output, hpaint⟩ := e'.paint_spec
  rw [hpaint]
  exact ⟨h.mode, h.history⟩

theorem Stays.refresh (h : e.Stays e') : e.Stays e'.refresh := by
  obtain ⟨scheduled, suggestion, jobs, hschedule, -⟩ := e'.paint.schedule_spec
  rw [Engine.refresh, hschedule]
  exact ⟨h.paint.mode, h.paint.history⟩

theorem Stays.showSuffix (h : e.Stays e') (suffix : Suffix) : e.Stays (e'.showSuffix suffix) :=
  Stays.paint ⟨h.mode, h.history⟩

theorem Stays.showListing (h : e.Stays e') (listing : String) : e.Stays (e'.showListing listing) := by
  have hbare : e.Stays (e'.withBuffer (e'.buffer.setSuffix none)).paint := Stays.paint ⟨h.mode, h.history⟩
  unfold Engine.showListing
  exact Stays.paint ⟨hbare.mode, hbare.history⟩

theorem stays_onPartly (e : Engine) (generation : Nat) (result : Option Assist.Completion) :
    e.Stays (e.onPartly generation result) := by
  have htaken : e.Stays { e with suggestion := (e.suggestion.take generation result).2 } := ⟨rfl, rfl⟩
  unfold onPartly
  dsimp only
  split
  · exact htaken.showSuffix _
  · unfold requestPreview
    split
    · exact ⟨rfl, rfl⟩
    · exact ⟨rfl, rfl⟩

theorem stays_onFull (e : Engine) (result : Option Assist.Completion) : e.Stays (e.onFull result) := by
  have hcleared : e.Stays { e with suggestion := e.suggestion.clear } := ⟨rfl, rfl⟩
  unfold onFull
  dsimp only
  split
  · exact Stays.refresh ⟨rfl, rfl⟩
  · exact hcleared.showListing _
  · exact hcleared

theorem stays_onPreview (e : Engine) (text : Option String) : e.Stays (e.onPreview text) := by
  unfold onPreview
  split
  · split
    · exact ⟨rfl, rfl⟩
    · exact Stays.showSuffix ⟨rfl, rfl⟩ _
  · exact ⟨rfl, rfl⟩

/-- The answers to jobs are of no interest to a search. -/
theorem stays_onEvent (e : Engine) {event : Event} (h : ∀ lines, event ≠ .historyLoaded lines) :
    e.Stays (e.onEvent event) := by
  unfold onEvent
  split
  · exact ⟨rfl, rfl⟩
  · cases event with
    | historyLoaded lines => exact absurd rfl (h lines)
    | completed generation mode result =>
        cases mode with
        | partly => exact e.stays_onPartly generation result
        | full => exact e.stays_onFull result
    | previewed generation text => exact e.stays_onPreview text

end

/-! ### Keys -/

theorem mode_recallLine (e : Engine) (step : History → Option String × History) :
    (e.recallLine step).mode = e.mode := by
  unfold recallLine
  dsimp only
  split <;> rfl

theorem mode_interrupt (e : Engine) : e.interrupt.2.mode = e.mode := by
  unfold interrupt
  split
  · rfl
  · split <;> rfl

theorem mode_submit (e : Engine) : e.submit.2.mode = e.mode := by
  have hleft : ((e.withBuffer (e.buffer.setSuffix none).toEnd.2).paint.draw Screen.newline).mode = e.mode :=
    (Stays.paint ⟨rfl, rfl⟩).mode
  unfold submit
  dsimp only
  split
  · exact hleft
  · exact hleft

theorem mode_onOutcome (e : Engine) (statement : String) (outcome : LineOutcome) :
    (e.onOutcome statement outcome).mode = e.mode := by
  cases outcome with
  | needsAnotherLine => rfl
  | output text =>
      unfold onOutcome
      dsimp only
      split <;> rfl

theorem mode_act (e : Engine) {action : Action} (h : action ≠ .search) : (e.act action).2.mode = e.mode := by
  cases action with
  | search => exact absurd rfl h
  | older => exact e.mode_recallLine _
  | newer => exact e.mode_recallLine _
  | complete =>
      unfold act
      dsimp only
      split <;> rfl
  | submit => exact e.mode_submit
  | interrupt => exact e.mode_interrupt
  | _ => rfl

theorem searchRight_pressNormal {e : Engine} (h : e.mode = .normal) (k : Key) : (e.pressNormal k).2.SearchRight := by
  unfold pressNormal
  dsimp only
  by_cases hsearch : k.action e.context = .search
  · rw [hsearch]
    intro search hmode
    cases hmode
    exact Search.right_start _
  · refine searchRight_of_normal ?_
    rw [mode_act _ hsearch]
    split
    · exact h
    · exact h

theorem searchRight_pressSearch (e : Engine) (s : Search) (k : Key) : (e.pressSearch s k).2.SearchRight := by
  have hlook : ∀ s, ({ e with mode := .search (e.lookUp s) } : Engine).SearchRight := by
    intro s search hmode
    cases hmode
    exact e.right_lookUp s
  unfold pressSearch
  dsimp only
  split
  · exact hlook _
  · exact hlook _
  · exact hlook _
  · exact searchRight_of_normal rfl
  · exact searchRight_of_normal rfl
  · exact searchRight_of_normal rfl

theorem searchRight_press (e : Engine) (k : Key) : (e.press k).2.SearchRight := by
  unfold press
  split
  · rename_i hmode
    exact searchRight_pressNormal hmode k
  · exact e.searchRight_pressSearch _ k

theorem mode_of_evaluate {e e' : Engine} {k : Key} {statement : String} (h : e.press k = (.evaluate statement, e')) :
    e'.mode = .normal := by
  have hsubmit := action?_of_evaluate h
  have hmode : e.mode = .normal := by
    unfold action? at hsubmit
    split at hsubmit
    · assumption
    · cases hsubmit
  have hleft : e' = ({ e with armed := false } : Engine).submit.2 := by
    rw [← press_submit hsubmit, h]
  rw [hleft, mode_submit]
  exact hmode

section

variable (handler : LineHandler σ)

/-- Whatever was shown before: behind a key the search is right. -/
theorem searchRight_key (e : Engine) (k : Key) (s : σ) : (e.key handler k s).2.1.SearchRight := by
  refine key_keeps handler (e.searchRight_press k) (fun statement e' h outcome => ?_) s
  exact searchRight_of_normal ((mode_onOutcome e' statement outcome).trans (mode_of_evaluate h))

theorem searchRight_keys (e : Engine) (k : Key) (ks : List Key) (s : σ) :
    (e.keys handler (k :: ks) s).2.1.SearchRight := by
  have hkey := e.searchRight_key handler k s
  rw [keys]
  rcases hpressed : e.key handler k s with ⟨flow, e', s'⟩
  rw [hpressed] at hkey
  cases flow with
  | goOn => exact keys_keep handler (fun e _ k _ => e.searchRight_key handler k) hkey s'
  | exit reason => exact hkey

/-- A chunk need not hold a key. -/
theorem Stays.keysThenRefresh {e e' : Engine} (h : e.Stays e') (ks : List Key) (s : σ) :
    (e'.keysThenRefresh handler ks s).2.1.SearchRight ∨ e.Stays (e'.keysThenRefresh handler ks s).2.1 := by
  cases ks with
  | nil => exact .inr h.refresh
  | cons k ks =>
      have hrefresh : ∀ e : Engine, e.SearchRight → e.refresh.SearchRight :=
        fun e he => (Stays.refresh ⟨rfl, rfl⟩).searchRight he
      exact .inl (keysThenRefresh_keeps handler hrefresh (e'.searchRight_keys handler k ks s))

end

end Engine

/-! ### Room -/

/-- No more entries are kept than there is room for. -/
def History.Fits (h : History) : Prop :=
  h.entries.length ≤ h.capacity

theorem Ledger.Leads.fits {l l' : Ledger} {c : Chronicle} (h : l.Leads c l') (hfits : l.history.Fits) :
    l'.history.Fits := by
  induction h with
  | nil => exact hfits
  | @cons l l' deed c hdeed hrest ih =>
      refine ih ?_
      cases deed with
      | interrupted => exact hfits
      | delivered older => exact List.length_take_le ..
      | submitted line call =>
          cases call with
          | none => exact hfits
          | some call =>
              obtain ⟨statement, outcome⟩ := call
              cases outcome with
              | needsAnotherLine => exact hfits
              | output text =>
                  change (l.history.append statement).Fits
                  unfold History.append
                  dsimp only
                  split
                  · exact hfits
                  · exact List.length_take_le ..

namespace Occasion

variable (handler : LineHandler σ)

theorem fits_all {e : Engine} (h : e.history.history.Fits) (s : σ) (os : List Occasion) :
    (applyAll handler e s os).1.history.history.Fits :=
  (leads_all handler e s os).fits h

/-- A search goes through an occasion as it is, unless it is right behind it. Only loading changes the history then. -/
theorem apply_search (e : Engine) (s : σ) (o : Occasion) :
    (o.apply handler e s).1.SearchRight ∨ e.Stays (o.apply handler e s).1 ∨
      ∃ lines, o = .delivery (.historyLoaded lines) ∧
        (o.apply handler e s).1 = { e with history := e.history.install lines } := by
  cases o with
  | chunk bytes =>
      have hdecoded : e.Stays { e with decoder := (e.decoder.feed bytes).2 } := ⟨rfl, rfl⟩
      exact (hdecoded.keysThenRefresh handler (e.decoder.feed bytes).1 s).imp_right .inl
  | flush =>
      have hdecoded : e.Stays { e with decoder := e.decoder.flush.2 } := ⟨rfl, rfl⟩
      exact (hdecoded.keysThenRefresh handler e.decoder.flush.1 s).imp_right .inl
  | delivery event =>
      cases event with
      | historyLoaded lines => exact .inr (.inr ⟨lines, rfl, rfl⟩)
      | completed generation mode result => exact .inr (.inl (e.stays_onEvent nofun))
      | previewed generation text => exact .inr (.inl (e.stays_onEvent nofun))
  | resize columns =>
      have hresized : e.Stays (e.setColumns columns) := ⟨rfl, rfl⟩
      exact .inr (.inl hresized.paint)
  | refresh => exact .inr (.inl (Engine.Stays.refresh ⟨rfl, rfl⟩))
  | collect => exact .inr (.inl ⟨rfl, rfl⟩)

/-- A search was there and had found nothing when entries with its text were loaded. -/
def Missed (first : Engine) (s : σ) (os : List Occasion) (search : Search) : Prop :=
  search.found = none ∧ ∃ before lines after, os = before ++ .delivery (.historyLoaded lines) :: after ∧
    let e := (applyAll handler first s before).1
    e.mode = .search search ∧ e.history.history.sought search.query search.skip = none ∧
      ∃ line ∈ lines, search.query.toList <:+: line.toList

variable {handler}

theorem Missed.concat {first : Engine} {s : σ} {os : List Occasion} {search : Search}
    (h : Missed handler first s os search) (o : Occasion) : Missed handler first s (os ++ [o]) search := by
  obtain ⟨hfound, before, lines, after, rfl, hmissed⟩ := h
  refine ⟨hfound, before, lines, after ++ [o], ?_, hmissed⟩
  rw [List.append_assoc, List.cons_append]

theorem right_or_missed {first : Engine} (hmode : first.mode = .normal) (hfits : first.history.history.Fits) (s : σ)
    (os : List Occasion) :
    let e := (applyAll handler first s os).1
    ∀ search, e.mode = .search search → search.Right e.history.history ∨ Missed handler first s os search := by
  induction os using List.reverseRecOn with
  | nil => exact fun search hsearch => .inl (Engine.searchRight_of_normal hmode search hsearch)
  | append_singleton os o ih =>
      intro e search hsearch
      have hlast : e = (o.apply handler (applyAll handler first s os).1 (applyAll handler first s os).2).1 := by
        change (applyAll handler first s (os ++ [o])).1 = _
        rw [applyAll_append]
        rfl
      rw [hlast] at hsearch ⊢
      rcases apply_search handler (applyAll handler first s os).1 (applyAll handler first s os).2 o with
        hright | hstays | ⟨lines, rfl, hloaded⟩
      · exact .inl (hright search hsearch)
      · rw [hstays.history]
        exact (ih search (hstays.mode.symm.trans hsearch)).imp_right (Missed.concat · o)
      · rw [hloaded] at hsearch ⊢
        rcases ih search hsearch with hright | hmissed
        · rw [HistoryStore.history_install]
          refine (hright.install (fits_all handler hfits s os) lines).imp_right ?_
          rintro ⟨hfound, hsought, hline⟩
          exact ⟨hfound, os, lines, [], rfl, hsearch, hsought, hline⟩
        · exact .inr (hmissed.concat _)

/-- Whatever happens, a search shows what it seeks, unless it has found nothing and entries with its text were loaded.
It is right again behind the next key, and behind each key of a chunk. -/
theorem searches_find (settings : Settings) (highlighter : String → String) (history : HistoryStore)
    (hfits : history.history.Fits) (columns : Nat) (handler : LineHandler σ) (s : σ) (os : List Occasion) :
    let first := Engine.new settings highlighter history columns
    let (e, s') := applyAll handler first s os
    (∀ search, e.mode = .search search →
        search.found = e.history.history.sought search.query search.skip ∨ Missed handler first s os search) ∧
      ∀ decoder k ks search,
        let e' := (({ e with decoder } : Engine).keys handler (k :: ks) s').2.1
        e'.mode = .search search → search.found = e'.history.history.sought search.query search.skip := by
  intro first
  refine ⟨fun search hmode => ?_, fun decoder k ks search hmode => ?_⟩
  · have hmode' : first.mode = .normal := rfl
    exact (right_or_missed hmode' hfits s os search hmode).imp_left Search.Right.found
  · exact (Engine.searchRight_keys handler _ k ks _ search hmode).found

theorem searches_find_shown :
    let history : HistoryStore := { history := { capacity := 2, entries := ["let b", "b"] } }
    let first := Engine.new {} id history 80
    let e := (applyAll (fun _ => pure .needsAnotherLine) first ()
      [.chunk [0x12], .chunk [0x62, 0x12, 0x12], .delivery (.historyLoaded ["b!"])]).1
    history.history.Fits ∧ e.mode = .search ⟨"b", 1, some "b"⟩ ∧ e.history.history.sought "b" 1 = some "b" := by
  intro history first e
  have hfits : history.history.Fits := Nat.le_refl 2
  have hmode : e.mode = .search ⟨"b", 1, some "b"⟩ := by decide +kernel
  refine ⟨hfits, hmode, ?_⟩
  rcases (searches_find {} id history hfits 80 (fun _ => pure .needsAnotherLine) () _).1 _ hmode with hright | hmissed
  · exact hright.symm
  · cases hmissed.1

/-- A search finds nothing in a history that is still empty, and it shows nothing when the line it looks for has been
loaded. -/
theorem loaded_entry_missed :
    let e := (applyAll (fun _ => pure .needsAnotherLine) (.new {} id (.inMemory 10) 80) ()
      [.chunk [0x12], .chunk [0x61], .delivery (.historyLoaded ["let a"])]).1
    e.mode = .search ⟨"a", 0, none⟩ ∧ e.history.history.sought "a" 0 = some "let a" := by
  decide +kernel

end Occasion

end Console

end ScriptRepl
