import ScriptRepl.Proofs.Console.Recalling
import ScriptRepl.Proofs.Console.Saving
import ScriptRepl.Proofs.Console.Searching

/-! The walk through a history. It stays among the entries, and lines that are loaded meanwhile come behind them, so
that the way back is the same as before. -/
namespace ScriptRepl.Console

namespace History

variable {h : History}

/-- There is room for the entries, and an entry where the walk has come to. -/
structure Placed (h : History) : Prop where
  fits : h.Fits
  lt : ∀ n, h.reached = some n → n < h.entries.length

/-- Nothing that was there moves when older entries are installed. -/
theorem take_install (hfits : h.Fits) (older : List String) {n : Nat} (hn : n ≤ h.entries.length) :
    (h.install older).entries.take n = h.entries.take n := by
  have hle : n ≤ h.capacity := Nat.le_trans hn hfits
  rw [install, List.take_take, Nat.min_eq_left hle, List.take_append_of_le_length hn]

theorem getElem?_install (hfits : h.Fits) (older : List String) {n : Nat} (hn : n < h.entries.length) :
    (h.install older).entries[n]? = h.entries[n]? := by
  have htake := congrArg (·[n]?) (take_install hfits older (Nat.succ_le_of_lt hn))
  simpa using htake

theorem length_le_install (hfits : h.Fits) (older : List String) :
    h.entries.length ≤ (h.install older).entries.length := by
  have htake := congrArg List.length (take_install hfits older (Nat.le_refl _))
  rw [List.length_take, List.take_length] at htake
  omega

theorem olderNumber_lt (h : History) (hentries : h.entries ≠ []) : h.olderNumber < h.entries.length := by
  have hpos := List.length_pos_iff.mpr hentries
  unfold olderNumber
  cases h.reached with
  | none => exact hpos
  | some n => exact Nat.lt_of_le_of_lt (Nat.min_le_right _ _) (Nat.sub_lt hpos Nat.one_pos)

/-- With entries, a step to an older one gets to one. -/
theorem previous_of_ne (h : History) (hentries : h.entries ≠ []) :
    h.previous = (h.entries[h.olderNumber]?, { h with reached := some h.olderNumber }) := by
  unfold previous
  rw [if_neg (by simpa using hentries)]
  unfold olderNumber
  cases h.reached <;> rfl

theorem previous_of_nil (h : History) (hentries : h.entries = []) : h.previous = (none, h) := by
  unfold previous
  rw [if_pos (List.isEmpty_iff.mpr hentries)]

namespace Placed

theorem append (hh : h.Placed) (line : String) : (h.append line).Placed := by
  unfold History.append
  dsimp only
  split
  · exact hh
  · exact ⟨List.length_take_le .., nofun⟩

theorem install (hh : h.Placed) (older : List String) : (h.install older).Placed where
  fits := List.length_take_le ..
  lt n hn := Nat.lt_of_lt_of_le (hh.lt n hn) (length_le_install hh.fits older)

theorem previous (hh : h.Placed) : h.previous.2.Placed := by
  by_cases hentries : h.entries = []
  · rw [previous_of_nil h hentries]
    exact hh
  · rw [previous_of_ne h hentries]
    refine ⟨hh.fits, ?_⟩
    rintro _ ⟨⟩
    exact olderNumber_lt h hentries

theorem next (hh : h.Placed) : h.next.2.Placed := by
  unfold History.next
  split
  · exact hh
  · exact ⟨hh.fits, nofun⟩
  · rename_i n hreached
    refine ⟨hh.fits, ?_⟩
    rintro _ ⟨⟩
    exact Nat.lt_of_succ_lt (hh.lt _ hreached)

theorem use (hh : h.Placed) (u : Use) : (u.history h).Placed := by
  cases u with
  | append line => exact hh.append line
  | install older => exact hh.install older
  | previous => exact hh.previous
  | next => exact hh.next
  | endRecall => exact ⟨hh.fits, nofun⟩
  | workOff => exact hh

end Placed

/-! ### Steps in a row -/

/-- What is in front of the walk on its way back: the newer entries, and an empty line behind the newest one. -/
def ahead (h : History) : List String :=
  match h.reached with
  | none => []
  | some n => (h.entries.take n).reverse ++ [""]

/-- What is in front of a walk that took so many steps from the newest entry on. -/
def wayBack (h : History) : Nat → List String
  | 0 => []
  | k + 1 =>
    if h.entries.isEmpty then [] else (h.entries.take (min k (h.entries.length - 1))).reverse ++ [""]

/-- A step back takes the first line of the way. -/
theorem next_eq (hh : h.Placed) : h.next.1 = h.ahead.head? ∧ h.next.2.ahead = h.ahead.tail := by
  unfold next
  split
  · rename_i hreached
    rw [ahead, hreached]
    exact ⟨rfl, rfl⟩
  · rename_i hreached
    rw [ahead, ahead, hreached]
    exact ⟨rfl, rfl⟩
  · rename_i n hreached
    have hlt : n < h.entries.length := Nat.lt_of_succ_lt (hh.lt _ hreached)
    rw [ahead, ahead, hreached]
    dsimp only
    rw [List.take_succ_eq_append_getElem hlt, List.reverse_append, List.getElem?_eq_getElem hlt]
    exact ⟨rfl, rfl⟩

end History

namespace HistoryStore

variable {s : HistoryStore}

/-- The answers of so many steps, and where they lead. -/
def steps (step : History → Option String × History) : Nat → HistoryStore → List (Option String) × HistoryStore
  | 0, s => ([], s)
  | n + 1, s =>
    let (answer, s) := s.walk step
    let (answers, s) := steps step n s
    (answer :: answers, s)

/-- The store with its walk at this entry. -/
def walkedTo (s : HistoryStore) (n : Nat) : HistoryStore :=
  { s with history := { s.history with reached := some n } }

@[simp] theorem entries_walkedTo (s : HistoryStore) (n : Nat) : (s.walkedTo n).history.entries = s.history.entries :=
  rfl

@[simp] theorem walkedTo_walkedTo (s : HistoryStore) (n m : Nat) : (s.walkedTo n).walkedTo m = s.walkedTo m := rfl

theorem placed_uses (hs : s.history.Placed) (us : List Use) : (s.uses us).history.Placed := by
  induction us generalizing s with
  | nil => exact hs
  | cons u us ih =>
      have hnext : (s.use u).history.Placed := by
        rw [history_use]
        exact hs.use u
      exact ih hnext

theorem steps_previous_of_nil (hentries : s.history.entries = []) (k : Nat) :
    steps History.previous k s = (List.replicate k none, s) := by
  have hwalk : s.walk History.previous = (none, s) := by
    rw [walk, s.history.previous_of_nil hentries]
  induction k with
  | zero => rfl
  | succ k ih =>
      rw [steps, hwalk]
      dsimp only
      rw [ih]
      rfl

theorem walk_previous (hentries : s.history.entries ≠ []) :
    s.walk History.previous = (s.history.entries[s.history.olderNumber]?, s.walkedTo s.history.olderNumber) := by
  rw [walk, s.history.previous_of_ne hentries]
  rfl

/-- Steps to older entries end at the oldest one. -/
theorem steps_previous (hentries : s.history.entries ≠ []) (k : Nat) :
    let last := s.history.entries.length - 1
    steps History.previous (k + 1) s =
      ((List.range (k + 1)).map fun i => s.history.entries[min (s.history.olderNumber + i) last]?,
        s.walkedTo (min (s.history.olderNumber + k) last)) := by
  have hlt := s.history.olderNumber_lt hentries
  have hmin : min s.history.olderNumber (s.history.entries.length - 1) = s.history.olderNumber := by omega
  induction k generalizing s with
  | zero =>
      rw [steps, walk_previous hentries]
      simp [steps, hmin]
  | succ k ih =>
      have holder : (s.walkedTo s.history.olderNumber).history.olderNumber =
          min (s.history.olderNumber + 1) (s.history.entries.length - 1) := rfl
      have hsum (i : Nat) : min (min (s.history.olderNumber + 1) (s.history.entries.length - 1) + i)
          (s.history.entries.length - 1) = min (s.history.olderNumber + (i + 1)) (s.history.entries.length - 1) := by
        omega
      rw [steps, walk_previous hentries, List.range_succ_eq_map (n := k + 1)]
      dsimp only
      -- the other steps are those of a walk that has come to the next older entry
      rw [ih (s := s.walkedTo s.history.olderNumber) hentries]
      · simp only [entries_walkedTo, walkedTo_walkedTo, holder, hsum, List.map_cons, List.map_map, Nat.add_zero, hmin]
        rfl
      · rw [holder, entries_walkedTo]
        omega
      · rw [holder, entries_walkedTo]
        omega

/-- Steps to newer entries. -/
theorem steps_next (hs : s.history.Placed) (m : Nat) :
    (steps History.next m s).1 = (List.range m).map (s.history.ahead[·]?) := by
  induction m generalizing s with
  | zero => rfl
  | succ m ih =>
      obtain ⟨hfirst, hrest⟩ := History.next_eq hs
      rw [List.range_succ_eq_map, List.map_cons, List.map_map]
      refine congrArg₂ _ (hfirst.trans List.head?_eq_getElem?) ((ih (s := (s.walk History.next).2) hs.next).trans ?_)
      refine List.map_congr_left fun i _ => ?_
      change s.history.next.2.ahead[i]? = s.history.ahead[i + 1]?
      rw [hrest, List.getElem?_tail]

theorem placed_steps_previous (hs : s.history.Placed) (k : Nat) :
    (steps History.previous k s).2.history.Placed := by
  induction k generalizing s with
  | zero => exact hs
  | succ k ih => exact ih (s := (s.walk History.previous).2) hs.previous

/-- From the newest entry on. -/
theorem steps_previous_of_reached (hreached : s.history.reached = none) (k : Nat) :
    (steps History.previous k s).1 =
        (List.range k).map (fun i => s.history.entries[min i (s.history.entries.length - 1)]?) ∧
      (steps History.previous k s).2.history.ahead = s.history.wayBack k := by
  have hfirst : s.history.olderNumber = 0 := by rw [History.olderNumber, hreached, Option.elim_none]
  cases k with
  | zero =>
      refine ⟨rfl, ?_⟩
      change s.history.ahead = []
      rw [History.ahead, hreached]
  | succ k =>
      by_cases hentries : s.history.entries = []
      · rw [steps_previous_of_nil hentries, History.ahead, hreached, History.wayBack, hentries]
        refine ⟨?_, rfl⟩
        simp only [List.getElem?_nil, List.map_const', List.length_range]
      · rw [steps_previous hentries, hfirst, History.wayBack, if_neg (by simpa using hentries)]
        simp only [Nat.zero_add, walkedTo, History.ahead, and_self]

/-- What is installed during a walk comes behind it. -/
theorem ahead_install (hs : s.history.Placed) (older : List String) :
    (s.install older).history.ahead = s.history.ahead := by
  have hreached : (s.history.install older).reached = s.history.reached := rfl
  rw [history_install, History.ahead, History.ahead, hreached]
  split
  · rfl
  · rename_i n hn
    rw [History.take_install hs.fits older (Nat.le_of_lt (hs.lt n hn))]

/-- Whatever was done with a history that began empty: there is room for its entries, and an entry where its walk has
come to. Lines that are installed leave every entry in its place, and the walk as it was, and change nothing on its way
back. A walk from the start passes the entries from the newest one on and stays on the oldest one; its way back leads
through those that it passed to an empty line, and then nowhere. -/
theorem recall_walks (capacity : Nat) (backing : Option Backing) (us : List Use) :
    let s := ({ history := { capacity }, backing } : HistoryStore).uses us
    s.history.Fits ∧
      (∀ n, s.history.reached = some n → n < s.history.entries.length) ∧
      (∀ older, (s.install older).history.reached = s.history.reached ∧
        (∀ n < s.history.entries.length, (s.install older).history.entries[n]? = s.history.entries[n]?) ∧
        ∀ m, (steps History.next m (s.install older)).1 = (steps History.next m s).1) ∧
      (s.history.reached = none → ∀ k m,
        let (answers, s') := steps History.previous k s
        answers = (List.range k).map (fun i => s.history.entries[min i (s.history.entries.length - 1)]?) ∧
          (steps History.next m s').1 = (List.range m).map ((s.history.wayBack k)[·]?)) := by
  intro s
  have hs : s.history.Placed := placed_uses (s := { history := { capacity }, backing }) ⟨Nat.zero_le capacity, nofun⟩ us
  refine ⟨hs.fits, hs.lt, fun older => ⟨?_, fun n hn => ?_, fun m => ?_⟩, fun hreached k m => ?_⟩
  · rw [history_install]
    rfl
  · rw [history_install, History.getElem?_install hs.fits older hn]
  · have hinstalled : (s.install older).history.Placed := by
      rw [history_install]
      exact hs.install older
    rw [steps_next hinstalled, steps_next hs, ahead_install hs]
  · obtain ⟨hanswers, hahead⟩ := steps_previous_of_reached hreached k
    refine ⟨hanswers, ?_⟩
    rw [steps_next (placed_steps_previous hs k), hahead]

end HistoryStore

end ScriptRepl.Console
