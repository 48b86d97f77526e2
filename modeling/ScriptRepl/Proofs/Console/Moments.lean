import Mathlib.Data.List.Infix
import ScriptRepl.Proofs.Console.Statements

/-! What happens to an engine, one key at a time. A chunk is the keys that it gives, up to one that exits, so that
states between the keys of a chunk are states behind a moment. What holds behind some moment and did not hold at first
has begun to hold at an earlier one, and has held since. -/
namespace ScriptRepl.Console

inductive Moment where
  | key (k : Key)
  /-- Bytes have come; the keys that they give follow. -/
  | decoded (decoder : Decoder)
  | delivery (event : Event)
  | resize (columns : Nat)
  | refresh
  | collect

namespace Moment

variable (handler : LineHandler σ)

def pass (e : Engine) (s : σ) : Moment → Engine × σ
  | key k => (e.key handler k s).2
  | decoded decoder => ({ e with decoder }, s)
  | delivery event => (e.onEvent event, s)
  | resize columns => ((e.setColumns columns).paint, s)
  | refresh => (e.refresh, s)
  | collect => (e.takeOutput.2.takeJobs.2, s)

def passAll (e : Engine) (s : σ) : List Moment → Engine × σ
  | [] => (e, s)
  | m :: ms =>
    let (e, s) := m.pass handler e s
    passAll e s ms

theorem passAll_append (e : Engine) (s : σ) (ms ms' : List Moment) :
    passAll handler e s (ms ++ ms') =
      passAll handler (passAll handler e s ms).1 (passAll handler e s ms).2 ms' := by
  induction ms generalizing e s with
  | nil => rfl
  | cons m ms ih => exact ih _ _

theorem passAll_concat (e : Engine) (s : σ) (ms : List Moment) (m : Moment) :
    passAll handler e s (ms ++ [m]) = m.pass handler (passAll handler e s ms).1 (passAll handler e s ms).2 :=
  passAll_append handler e s ms [m]

/-! ### Chunks -/

/-- The line is painted behind the last key, unless one of them exits. -/
def ofKeys (e : Engine) : List Key → σ → List Moment
  | [], _ => [refresh]
  | k :: ks, s =>
    key k ::
      match e.key handler k s with
      | (.goOn, e, s) => ofKeys e ks s
      | (.exit _, _, _) => []

theorem passAll_ofKeys (e : Engine) (ks : List Key) (s : σ) :
    passAll handler e s (ofKeys handler e ks s) = (e.keysThenRefresh handler ks s).2 := by
  induction ks generalizing e s with
  | nil => rfl
  | cons k ks ih =>
      rw [ofKeys, passAll, pass, Engine.keysThenRefresh, Engine.keys]
      rcases e.key handler k s with ⟨flow, e', s'⟩
      cases flow with
      | goOn => exact ih e' s'
      | exit reason => rfl

def ofOccasion (e : Engine) (s : σ) : Occasion → List Moment
  | .chunk bytes =>
    let (ks, decoder) := e.decoder.feed bytes
    decoded decoder :: ofKeys handler { e with decoder } ks s
  | .flush =>
    let (ks, decoder) := e.decoder.flush
    decoded decoder :: ofKeys handler { e with decoder } ks s
  | .delivery event => [delivery event]
  | .resize columns => [resize columns]
  | .refresh => [refresh]
  | .collect => [collect]

theorem passAll_ofOccasion (e : Engine) (s : σ) (o : Occasion) :
    passAll handler e s (ofOccasion handler e s o) = o.apply handler e s := by
  cases o with
  | chunk bytes => exact passAll_ofKeys handler { e with decoder := (e.decoder.feed bytes).2 } _ s
  | flush => exact passAll_ofKeys handler { e with decoder := e.decoder.flush.2 } _ s
  | delivery event => rfl
  | resize columns => rfl
  | refresh => rfl
  | collect => rfl

/-- Whatever happens to an engine is moments in turn. -/
def ofOccasions (e : Engine) (s : σ) : List Occasion → List Moment
  | [] => []
  | o :: os =>
    ofOccasion handler e s o ++
      let (e, s) := o.apply handler e s
      ofOccasions e s os

theorem passAll_ofOccasions (e : Engine) (s : σ) (os : List Occasion) :
    passAll handler e s (ofOccasions handler e s os) = Occasion.applyAll handler e s os := by
  induction os generalizing e s with
  | nil => rfl
  | cons o os ih =>
      rw [ofOccasions, passAll_append, passAll_ofOccasion]
      exact ih _ _

/-! ### Since when -/

section

variable {handler} {p : Engine → Prop} {first : Engine} {s : σ}

/-- What each moment preserves holds behind all of them. -/
theorem passAll_keeps (hpass : ∀ e s m, p e → p (pass handler e s m).1) (hfirst : p first) (ms : List Moment) :
    p (passAll handler first s ms).1 := by
  induction ms generalizing first s with
  | nil => exact hfirst
  | cons m ms ih => exact ih (hpass first s m hfirst)

/-- Something holds behind the moments `before` and `m` and has held behind each of `during`, but not before `m`. -/
structure Began (handler : LineHandler σ) (p : Engine → Prop) (first : Engine) (s : σ) (before : List Moment)
    (m : Moment) (during : List Moment) : Prop where
  not_before : ¬ p (passAll handler first s before).1
  since : ∀ some, some <+: during → p (passAll handler first s (before ++ m :: some)).1

theorem Began.concat {before during : List Moment} {m m' : Moment} (h : Began handler p first s before m during)
    (hp : p (passAll handler first s (before ++ m :: (during ++ [m']))).1) :
    Began handler p first s before m (during ++ [m']) where
  not_before := h.not_before
  since some hsome := by
    rcases List.prefix_concat_iff.mp hsome with rfl | hsome
    · exact hp
    · exact h.since some hsome

theorem exists_began (hfirst : ¬ p first) {ms : List Moment} (h : p (passAll handler first s ms).1) :
    ∃ before m during, ms = before ++ m :: during ∧ Began handler p first s before m during := by
  induction ms using List.reverseRecOn with
  | nil => exact absurd h hfirst
  | append_singleton ms m ih =>
      by_cases hp : p (passAll handler first s ms).1
      · obtain ⟨before, m', during, rfl, hbegan⟩ := ih hp
        have happend : before ++ m' :: during ++ [m] = before ++ m' :: (during ++ [m]) := by simp
        exact ⟨before, m', during ++ [m], happend, hbegan.concat (happend ▸ h)⟩
      · refine ⟨ms, m, [], rfl, hp, fun some hsome => ?_⟩
        rw [List.prefix_nil.mp hsome]
        exact h

/-- What does not change from one moment to the next as long as something holds is what it was when that began. -/
theorem Began.eq_of_same {α : Type} {f : Engine → α} {before during : List Moment} {m : Moment}
    (h : Began handler p first s before m during)
    (hsame : ∀ e s m, p e → p (pass handler e s m).1 → f (pass handler e s m).1 = f e) :
    f (passAll handler first s (before ++ m :: during)).1 = f (passAll handler first s (before ++ [m])).1 := by
  induction during using List.reverseRecOn with
  | nil => rfl
  | append_singleton during m' ih =>
      have hearlier : Began handler p first s before m during :=
        ⟨h.not_before, fun some hsome => h.since some (hsome.trans (List.prefix_append ..))⟩
      have hlast := h.since (during ++ [m']) List.prefix_rfl
      rw [← List.cons_append, ← List.append_assoc, passAll_concat] at hlast ⊢
      rw [hsame _ _ m' (h.since during (List.prefix_append ..)) hlast]
      exact ih hearlier

end

end Moment

end ScriptRepl.Console
