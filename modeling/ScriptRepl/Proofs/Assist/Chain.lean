import ScriptRepl.Assist.Completion

/-! The chain of members, indices and calls that a value is taken from: what it is made of, and that it is not cut
short. Tokens have the nearest one first. -/
namespace ScriptRepl.Assist

open Syntax (Token)

/-- Tokens among which so many brackets open that are closed behind them, and else each bracket with its partner. -/
inductive Opens : Nat → List Token → Prop where
  | nil : Opens 0 []
  | closing {n : Nat} {t : Token} {ts : List Token} (ht : isClosing t = true) (h : Opens (n + 1) ts) : Opens n (t :: ts)
  | opening {n : Nat} {t : Token} {ts : List Token} (ht : isOpening t = true) (h : Opens n ts) : Opens (n + 1) (t :: ts)
  | other {n : Nat} {t : Token} {ts : List Token} (hclosing : isClosing t = false) (hopening : isOpening t = false)
      (h : Opens n ts) : Opens n (t :: ts)

/-- A bracket with all that it holds. -/
def IsBracket (ts : List Token) : Prop :=
  ∃ close inner opening, ts = close :: (inner ++ [opening]) ∧ isClosing close = true ∧ isOpening opening = true ∧
    Opens 0 inner

/-- A bracket that can be the arguments of a call or an index. -/
def IsApplied (ts : List Token) : Prop :=
  ∃ t ∈ ts.head?, t.kind = .punct .closeParen ∨ t.kind = .punct .closeBracket

/-- A name or literal, or a bracket. -/
def IsPart (ts : List Token) : Prop :=
  (∃ t, ts = [t] ∧ endsValue t = true ∧ isClosing t = false) ∨ IsBracket ts

/-- A chain by its first part. -/
inductive Chain (first : List Token) : List Token → Prop where
  | first (h : IsPart first) : Chain first first
  | member {ts name : List Token} {dot : Token} (h : Chain first ts) (hdot : dot.kind = .punct .dot)
      (hname : IsPart name) : Chain first (name ++ dot :: ts)
  | applied {ts args : List Token} (h : Chain first ts) (hends : ts.head?.any endsValue = true)
      (hargs : IsBracket args) (happlied : IsApplied args) : Chain first (args ++ ts)

/-- The first part of a chain is neither a member of what comes before it nor applied to that. -/
structure Begins (first earlier : List Token) : Prop where
  member : ∀ dot target before, earlier = dot :: target :: before → dot.kind ≠ .punct .dot
  applied : IsApplied first → earlier.head?.any endsValue = false

theorem opens_of_openingOf? {depth : Nat} {ts before : List Token} {opening : Token}
    (h : openingOf? (depth + 1) ts = some (opening, before)) :
    ∃ inner, ts = inner ++ opening :: before ∧ isOpening opening = true ∧ Opens depth inner := by
  induction ts generalizing depth with
  | nil => cases h
  | cons t ts ih =>
      unfold openingOf? at h
      split at h
      · rename_i hclosing
        obtain ⟨inner, rfl, hopening, hinner⟩ := ih h
        exact ⟨t :: inner, rfl, hopening, .closing hclosing hinner⟩
      rename_i hclosing
      split at h
      · rename_i ht
        cases depth with
        | zero =>
            cases h
            exact ⟨[], rfl, ht, .nil⟩
        | succ depth =>
            obtain ⟨inner, rfl, hopening, hinner⟩ := ih h
            exact ⟨t :: inner, rfl, hopening, .opening ht hinner⟩
      · rename_i hopening
        obtain ⟨inner, rfl, hopened, hinner⟩ := ih h
        exact ⟨t :: inner, rfl, hopened, .other (Bool.not_eq_true _ ▸ hclosing) (Bool.not_eq_true _ ▸ hopening) hinner⟩

theorem isBracket_of_bracketed? {t : Token} {ts : List Token} {link : Link} (ht : isClosing t = true)
    (h : bracketed? (t :: ts) = some link) :
    ∃ part opening before, link = .begins opening before ∧ t :: ts = part ++ before ∧ IsBracket part ∧
      part.head? = some t ∧ part.getLast? = some opening := by
  obtain ⟨⟨opening, before⟩, ho, rfl⟩ := Option.map_eq_some_iff.mp h
  unfold openingOf? at ho
  rw [if_pos ht] at ho
  obtain ⟨inner, rfl, hopening, hinner⟩ := opens_of_openingOf? ho
  refine ⟨t :: (inner ++ [opening]), opening, before, rfl, by simp, ⟨t, inner, opening, rfl, ht, hopening, hinner⟩, rfl,
    ?_⟩
  rw [← List.cons_append, List.getLast?_concat]

/-- What the last part of a chain says of the tokens before it. -/
def Link.Fits (part : List Token) : Link → Prop
  | .begins t before => part.getLast? = some t ∧ (IsApplied part → before.head?.any endsValue = false)
  | .applied before => IsBracket part ∧ IsApplied part ∧ before.head?.any endsValue = true

theorem link?_cases {t : Token} {before : List Token} {link : Link} (h : link? (t :: before) = some link) :
    (link = .begins t before ∧ endsValue t = true ∧ isClosing t = false) ∨
      (bracketed? (t :: before) = some link ∧ t.kind = .punct .closeBrace) ∨
      ((t.kind = .punct .closeParen ∨ t.kind = .punct .closeBracket) ∧
        ∃ inner, bracketed? (t :: before) = some inner ∧
          link = if inner.before.head?.any endsValue then .applied inner.before else inner) := by
  unfold link? at h
  dsimp only at h
  split at h
  case h_6 hkind => exact .inr (.inl ⟨h, hkind⟩)
  case h_7 hkind =>
      obtain ⟨inner, hinner, rfl⟩ := Option.map_eq_some_iff.mp h
      exact .inr (.inr ⟨.inl hkind, inner, hinner, rfl⟩)
  case h_8 hkind =>
      obtain ⟨inner, hinner, rfl⟩ := Option.map_eq_some_iff.mp h
      exact .inr (.inr ⟨.inr hkind, inner, hinner, rfl⟩)
  case h_9 => cases h
  all_goals
    rename_i hkind
    cases h
    exact .inl ⟨rfl, by simp [endsValue, hkind], by simp [isClosing, hkind]⟩

theorem not_isApplied_of_head {part : List Token} {t : Token} (hhead : part.head? = some t)
    (hparen : t.kind ≠ .punct .closeParen) (hbracket : t.kind ≠ .punct .closeBracket) : ¬IsApplied part := by
  rintro ⟨t', ht', hkind⟩
  rw [hhead] at ht'
  cases ht'
  rcases hkind with hkind | hkind
  · exact hparen hkind
  · exact hbracket hkind

theorem part_of_link? {ts : List Token} {link : Link} (h : link? ts = some link) :
    ∃ part, ts = part ++ link.before ∧ IsPart part ∧ link.Fits part := by
  cases ts with
  | nil => cases h
  | cons t before =>
      rcases link?_cases h with ⟨rfl, hends, hclosing⟩ | ⟨hbracketed, hkind⟩ | ⟨hkind, inner, hinner, rfl⟩
      · refine ⟨[t], rfl, .inl ⟨t, rfl, hends, hclosing⟩, rfl, fun happlied => absurd happlied ?_⟩
        refine not_isApplied_of_head rfl ?_ ?_
        · intro hkind
          simp [isClosing, hkind] at hclosing
        · intro hkind
          simp [isClosing, hkind] at hclosing
      · obtain ⟨part, opening, rest, rfl, hsplit, hbracket, hhead, hlast⟩ :=
          isBracket_of_bracketed? (by simp [isClosing, hkind]) hbracketed
        refine ⟨part, hsplit, .inr hbracket, hlast, fun happlied => absurd happlied ?_⟩
        exact not_isApplied_of_head hhead (by simp [hkind]) (by simp [hkind])
      · have hclosing : isClosing t = true := by
          rcases hkind with hkind | hkind <;> simp [isClosing, hkind]
        obtain ⟨part, opening, rest, rfl, hsplit, hbracket, hhead, hlast⟩ := isBracket_of_bracketed? hclosing hinner
        have happlied : IsApplied part := ⟨t, hhead, hkind⟩
        refine ⟨part, ?_, .inr hbracket, ?_⟩
        · split <;> exact hsplit
        · split
          · rename_i hends
            exact ⟨hbracket, happlied, hends⟩
          · rename_i hends
            exact ⟨hlast, fun _ => Bool.not_eq_true _ ▸ hends⟩

/-- What comes before a completion's dot ends with a chain, and that is the one that is looked at. -/
theorem chain_of_chainStart? {ts : List Token} {start : Token} (h : chainStart? ts = some start) :
    ∃ first chain earlier, ts = chain ++ earlier ∧ Chain first chain ∧ Begins first earlier ∧
      chain.getLast? = some start := by
  have hlast : ∀ {part chain : List Token}, chain.getLast? = some start → (part ++ chain).getLast? = some start := by
    intro part chain hchain
    rw [List.getLast?_append, hchain]
    rfl
  fun_induction chainStart? ts with
  | case1 => cases h
  | case2 ts before hlink ih =>
      obtain ⟨args, rfl, -, hbracket, happlied, hends⟩ := part_of_link? hlink
      obtain ⟨first, chain, earlier, hsplit, hchain, hbegins, hstart⟩ := ih h
      refine ⟨first, args ++ chain, earlier, ?_, .applied hchain ?_ hbracket happlied, hbegins, hlast hstart⟩
      · rw [List.append_assoc, ← hsplit]
        rfl
      · rw [hsplit] at hends
        cases chain with
        | nil => cases hstart
        | cons t chain => exact hends
  | case3 ts t dot target before hlink hdot ih =>
      obtain ⟨name, rfl, hpart, -⟩ := part_of_link? hlink
      obtain ⟨first, chain, earlier, hsplit, hchain, hbegins, hstart⟩ := ih h
      refine ⟨first, name ++ dot :: chain, earlier, ?_, .member hchain hdot hpart, hbegins, ?_⟩
      · rw [List.append_assoc, List.cons_append, ← hsplit]
        rfl
      · rw [List.append_cons]
        exact hlast hstart
  | case4 ts t dot target before hlink hdot =>
      cases h
      obtain ⟨part, rfl, hpart, hstart, happlied⟩ := part_of_link? hlink
      refine ⟨part, part, dot :: target :: before, rfl, .first hpart, ⟨?_, happlied⟩, hstart⟩
      rintro _ _ _ ⟨⟩
      exact hdot
  | case5 ts t before hshort hlink =>
      cases h
      obtain ⟨part, rfl, hpart, hstart, happlied⟩ := part_of_link? hlink
      refine ⟨part, part, before, rfl, .first hpart, ⟨?_, happlied⟩, hstart⟩
      rintro dot target rest rfl
      exact absurd rfl (hshort dot target rest)

end ScriptRepl.Assist
