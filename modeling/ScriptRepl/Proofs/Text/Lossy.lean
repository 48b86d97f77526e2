import ScriptRepl.Text.Utf8

/-! Lossy decoding of UTF-8. The bytes fall into characters, longest parts that cannot begin a character, each of which
is read as one replacement character, and the beginning of a character at the end, which is held back. -/
namespace ScriptRepl.Text.Utf8

open String (utf8EncodeChar)

/-- The bytes are the beginning of a character whose last bytes are missing. -/
def Begins (part : List UInt8) : Prop :=
  ∃ c rest, rest ≠ [] ∧ utf8EncodeChar c = part ++ rest

/-- The characters of some bytes and what is held back of them. -/
inductive Lossy : (bytes : List UInt8) → (cs : List Char) → (held : List UInt8) → Prop
  | held {part : List UInt8} (h : Begins part) : Lossy part [] part
  | char {rest held : List UInt8} {cs : List Char} (c : Char) (hrest : Lossy rest cs held) :
    Lossy (utf8EncodeChar c ++ rest) (c :: cs) held
  /-- A byte that no character begins with. -/
  | alone {b : UInt8} {rest held : List UInt8} {cs : List Char} (hb : ∀ c more, utf8EncodeChar c ≠ b :: more)
      (hrest : Lossy rest cs held) : Lossy (b :: rest) (replacement :: cs) held
  /-- The beginning of a character that does not go on with the byte behind it. -/
  | cut {part : List UInt8} {b : UInt8} {rest held : List UInt8} {cs : List Char} (hpart : part ≠ [])
      (hbegins : Begins part) (hb : ∀ c more, utf8EncodeChar c ≠ part ++ b :: more)
      (hrest : Lossy (b :: rest) cs held) : Lossy (part ++ b :: rest) (replacement :: cs) held

/-! ### The bytes behind the first one -/

/-- Bytes that complete a character with these bits, and its code point. -/
inductive Completes : (bits low high more : Nat) → List UInt8 → Nat → Prop
  | last {bits low high : Nat} {b : UInt8} (hlow : low ≤ b.toNat) (hhigh : b.toNat ≤ high) :
    Completes bits low high 0 [b] (bits * 64 + (b.toNat - 0x80))
  | next {bits low high more : Nat} {b : UInt8} {bs : List UInt8} {v : Nat} (hlow : low ≤ b.toNat)
      (hhigh : b.toNat ≤ high) (hrest : Completes (bits * 64 + (b.toNat - 0x80)) 0x80 0xbf more bs v) :
    Completes bits low high (more + 1) (b :: bs) v

theorem within_of_completes {bits low high more v : Nat} {bs : List UInt8} (h : Completes bits low high more bs v)
    (rest : List UInt8) : within bits low high more (bs ++ rest) = some (Char.ofNat v, rest) := by
  induction h with
  | last hlow hhigh => simp [within, hlow, hhigh]
  | next hlow hhigh _ ih => simp [within, hlow, hhigh, ih]

theorem toNat_continuation (n : Nat) : (UInt8.ofNat (n % 64 + 0x80)).toNat = n % 64 + 0x80 := by
  rw [UInt8.toNat_ofNat']
  omega

theorem completes_last (v : Nat) {low high : Nat} (hlow : low ≤ v % 64 + 0x80) (hhigh : v % 64 + 0x80 ≤ high) :
    Completes (v / 64) low high 0 [UInt8.ofNat (v % 64 + 0x80)] v := by
  have hlast := @Completes.last (v / 64) low high (UInt8.ofNat (v % 64 + 0x80))
  rw [toNat_continuation, Nat.add_sub_cancel, Nat.div_add_mod'] at hlast
  exact hlast hlow hhigh

theorem completes_next {v w more low high : Nat} {bs : List UInt8} (hlow : low ≤ w % 64 + 0x80)
    (hhigh : w % 64 + 0x80 ≤ high) (hrest : Completes w 0x80 0xbf more bs v) :
    Completes (w / 64) low high (more + 1) (UInt8.ofNat (w % 64 + 0x80) :: bs) v := by
  have hnext := @Completes.next (w / 64) low high more (UInt8.ofNat (w % 64 + 0x80)) bs v
  rw [toNat_continuation, Nat.add_sub_cancel, Nat.div_add_mod'] at hnext
  exact hnext hlow hhigh hrest

theorem exists_continuation {b : UInt8} {low high : Nat} (hlow : low ≤ b.toNat) (hhigh : b.toNat ≤ high)
    (h80 : 0x80 ≤ low) :
    ∃ m, b = UInt8.ofNat (m + 0x80) ∧ low ≤ m + 0x80 ∧ m + 0x80 ≤ high ∧ b.toNat - 0x80 = m := by
  refine ⟨b.toNat - 0x80, ?_, ?_, ?_, rfl⟩
  · rw [Nat.sub_add_cancel (Nat.le_trans h80 hlow), UInt8.ofNat_toNat]
  · rwa [Nat.sub_add_cancel (Nat.le_trans h80 hlow)]
  · rwa [Nat.sub_add_cancel (Nat.le_trans h80 hlow)]

theorem Completes.of_zero {bits low high v : Nat} {bs : List UInt8} (h : Completes bits low high 0 bs v)
    (h80 : 0x80 ≤ low) :
    ∃ m, bs = [UInt8.ofNat (m + 0x80)] ∧ low ≤ m + 0x80 ∧ m + 0x80 ≤ high ∧ v = bits * 64 + m := by
  cases h with
  | last hlow hhigh =>
      obtain ⟨m, rfl, hlow, hhigh, hm⟩ := exists_continuation hlow hhigh h80
      exact ⟨m, rfl, hlow, hhigh, by rw [hm]⟩

theorem Completes.of_succ {bits low high more v : Nat} {bs : List UInt8} (h : Completes bits low high (more + 1) bs v)
    (h80 : 0x80 ≤ low) :
    ∃ m rest, bs = UInt8.ofNat (m + 0x80) :: rest ∧ low ≤ m + 0x80 ∧ m + 0x80 ≤ high ∧
      Completes (bits * 64 + m) 0x80 0xbf more rest v := by
  cases h with
  | next hlow hhigh hrest =>
      obtain ⟨m, rfl, hlow, hhigh, hm⟩ := exists_continuation hlow hhigh h80
      rw [hm] at hrest
      exact ⟨m, _, rfl, hlow, hhigh, hrest⟩

/-- What is read behind the first byte: the rest of a character, or as much of it as there is before a byte that does
not fit, whatever comes behind that. -/
theorem within_cases {bits low high more : Nat} {bs rest : List UInt8} {c : Char}
    (h : within bits low high more bs = some (c, rest)) :
    (∃ tail v, bs = tail ++ rest ∧ Completes bits low high more tail v ∧ c = Char.ofNat v) ∨
      ∃ taken b later, bs = taken ++ b :: later ∧ rest = b :: later ∧ c = replacement ∧
        within bits low high more taken = none ∧
        ∀ later, within bits low high more (taken ++ b :: later) = some (replacement, b :: later) := by
  induction bs generalizing bits low high more with
  | nil =>
      rw [within] at h
      cases h
  | cons b bs ih =>
      rw [within] at h
      split at h
      · rename_i hbounds
        have hbounds' : low ≤ b.toNat ∧ b.toNat ≤ high := by simpa using hbounds
        cases more with
        | zero =>
            obtain ⟨rfl, rfl⟩ := Prod.mk.inj (Option.some.inj h)
            exact .inl ⟨[b], _, rfl, .last hbounds'.1 hbounds'.2, rfl⟩
        | succ more =>
            rcases ih h with ⟨tail, v, rfl, htail, rfl⟩ | ⟨taken, d, later, rfl, rfl, rfl, hnone, hsome⟩
            · exact .inl ⟨b :: tail, v, rfl, .next hbounds'.1 hbounds'.2 htail, rfl⟩
            · refine .inr ⟨b :: taken, d, later, rfl, rfl, rfl, ?_, fun later => ?_⟩
              · rw [within, if_pos hbounds]
                exact hnone
              · rw [List.cons_append, within, if_pos hbounds]
                exact hsome later
      · rename_i hbounds
        obtain ⟨rfl, rfl⟩ := Prod.mk.inj (Option.some.inj h)
        refine .inr ⟨[], b, bs, rfl, rfl, rfl, by rw [within], fun later => ?_⟩
        rw [List.nil_append, within, if_neg hbounds]

/-- If there are not yet all bytes, others complete them. -/
theorem exists_completes {bits low high more : Nat} {bs : List UInt8} (h : within bits low high more bs = none)
    (hbounds : low ≤ high) (hbyte : high < 256) :
    ∃ rest v, rest ≠ [] ∧ Completes bits low high more (bs ++ rest) v := by
  induction bs generalizing bits low high more with
  | nil =>
      have hlow : (UInt8.ofNat low).toNat = low := by
        rw [UInt8.toNat_ofNat', Nat.mod_eq_of_lt (by omega)]
      induction more generalizing bits low high with
      | zero => exact ⟨[UInt8.ofNat low], _, List.cons_ne_nil _ _, .last (by omega) (by omega)⟩
      | succ more ih =>
          obtain ⟨rest, v, -, hrest⟩ :=
            @ih (bits * 64 + ((UInt8.ofNat low).toNat - 0x80)) 0x80 0xbf (by rw [within]) (by omega) (by omega) rfl
          exact ⟨UInt8.ofNat low :: rest, v, List.cons_ne_nil _ _, .next (by omega) (by omega) hrest⟩
  | cons b bs ih =>
      rw [within] at h
      split at h
      · rename_i hb
        have hb : low ≤ b.toNat ∧ b.toNat ≤ high := by simpa using hb
        cases more with
        | zero => cases h
        | succ more =>
            obtain ⟨rest, v, hne, hrest⟩ := ih h (by omega) (by omega)
            exact ⟨rest, v, hne, .next hb.1 hb.2 hrest⟩
      · cases h

/-! ### The first byte -/

theorem lead_two {n : Nat} (hlow : 2 ≤ n) (hhigh : n < 32) : lead (n + 0xc0) = .opens n 0x80 0xbf 0 := by
  rw [lead, if_neg (by omega), if_neg (by omega), if_pos (by omega), Nat.add_sub_cancel]

theorem lead_three {n : Nat} (h : n < 16) :
    lead (n + 0xe0) = .opens n (if n = 0 then 0xa0 else 0x80) (if n = 13 then 0x9f else 0xbf) 1 := by
  rw [lead, if_neg (by omega), if_neg (by omega), if_neg (by omega), if_pos (by omega), Nat.add_sub_cancel]
  simp only [Nat.add_eq_right, Nat.reduceEqDiff]

theorem lead_four {n : Nat} (h : n < 5) :
    lead (n + 0xf0) = .opens n (if n = 0 then 0x90 else 0x80) (if n = 4 then 0x8f else 0xbf) 2 := by
  rw [lead, if_neg (by omega), if_neg (by omega), if_neg (by omega), if_neg (by omega), if_pos (by omega),
    Nat.add_sub_cancel]
  simp only [Nat.add_eq_right, Nat.reduceEqDiff]

/-- A first byte opens a character of two, three or four bytes. -/
theorem lead_cases {b : UInt8} {bits low high more : Nat} (h : lead b.toNat = .opens bits low high more) :
    (b = UInt8.ofNat (bits + 0xc0) ∧ 2 ≤ bits ∧ bits < 32 ∧ low = 0x80 ∧ high = 0xbf ∧ more = 0) ∨
      (b = UInt8.ofNat (bits + 0xe0) ∧ bits < 16 ∧ low = (if bits = 0 then 0xa0 else 0x80) ∧
        high = (if bits = 13 then 0x9f else 0xbf) ∧ more = 1) ∨
      (b = UInt8.ofNat (bits + 0xf0) ∧ bits < 5 ∧ low = (if bits = 0 then 0x90 else 0x80) ∧
        high = (if bits = 4 then 0x8f else 0xbf) ∧ more = 2) := by
  have hb : b = UInt8.ofNat b.toNat := UInt8.ofNat_toNat.symm
  rw [hb]
  generalize b.toNat = n at h
  by_cases h80 : n < 0x80
  · rw [lead, if_pos h80] at h
    cases h
  by_cases hc2 : n < 0xc2
  · rw [lead, if_neg h80, if_pos hc2] at h
    cases h
  by_cases he0 : n < 0xe0
  · obtain ⟨m, rfl⟩ : ∃ m, n = m + 0xc0 := ⟨n - 0xc0, by omega⟩
    rw [lead_two (by omega) (by omega)] at h
    cases h
    exact .inl ⟨rfl, by omega, by omega, rfl, rfl, rfl⟩
  by_cases hf0 : n < 0xf0
  · obtain ⟨m, rfl⟩ : ∃ m, n = m + 0xe0 := ⟨n - 0xe0, by omega⟩
    rw [lead_three (by omega)] at h
    cases h
    exact .inr (.inl ⟨rfl, by omega, rfl, rfl, rfl⟩)
  by_cases hf5 : n < 0xf5
  · obtain ⟨m, rfl⟩ : ∃ m, n = m + 0xf0 := ⟨n - 0xf0, by omega⟩
    rw [lead_four (by omega)] at h
    cases h
    exact .inr (.inr ⟨rfl, by omega, rfl, rfl, rfl⟩)
  · rw [lead, if_neg h80, if_neg hc2, if_neg he0, if_neg hf0, if_neg hf5] at h
    cases h

theorem bounds_of_lead {b : UInt8} {bits low high more : Nat} (h : lead b.toNat = .opens bits low high more) :
    low ≤ high ∧ high < 256 := by
  rcases lead_cases h with ⟨-, -, -, rfl, rfl, -⟩ | ⟨-, -, rfl, rfl, -⟩ | ⟨-, -, rfl, rfl, -⟩
  · decide
  · split <;> split <;> omega
  · split <;> split <;> omega

/-- A byte that is read on its own is a character, or no character begins like it. -/
theorem lead_alone {b : UInt8} {c : Char} (h : lead b.toNat = .alone c) :
    (b.toNat < 0x80 ∧ c = Char.ofNat b.toNat) ∨ c = replacement := by
  unfold lead at h
  split at h
  · rename_i hsmall
    cases h
    exact .inl ⟨hsmall, rfl⟩
  split at h
  · cases h
    exact .inr rfl
  split at h
  · cases h
  split at h
  · cases h
  split at h
  · cases h
  · cases h
    exact .inr rfl

/-! ### Characters -/

theorem toNat_ofNat {v : Nat} (h : v.isValidChar) : (Char.ofNat v).val.toNat = v := by
  unfold Char.ofNat
  rw [dif_pos h]
  rfl

/-- The bytes that complete a character are its encoding. -/
theorem encode_of_completes {b : UInt8} {bits low high more v : Nat} {bs : List UInt8}
    (hlead : lead b.toNat = .opens bits low high more) (h : Completes bits low high more bs v) :
    utf8EncodeChar (Char.ofNat v) = b :: bs := by
  rcases lead_cases hlead with ⟨rfl, h2, h32, rfl, rfl, rfl⟩ | ⟨rfl, h16, rfl, rfl, rfl⟩ | ⟨rfl, h5, rfl, rfl, rfl⟩
  · obtain ⟨m, rfl, hlow, hhigh, hv⟩ := h.of_zero (by omega)
    have hvalid : v.isValidChar := .inl (by omega)
    have hfirst : v / 64 % 32 = bits := by omega
    have hlast : v % 64 = m := by omega
    rw [utf8EncodeChar, toNat_ofNat hvalid, if_neg (by omega), if_pos (by omega), hfirst, hlast]
  · obtain ⟨m, rest, rfl, hlow, hhigh, h⟩ := h.of_succ (by split <;> omega)
    obtain ⟨k, rfl, hlow', hhigh', hv⟩ := h.of_zero (by omega)
    -- the bounds keep out the code points of surrogates and those that need fewer bytes
    have hm : m < 64 ∧ (bits = 0 → 32 ≤ m) ∧ (bits = 13 → m < 32) := by
      split at hlow <;> split at hhigh <;> omega
    have hvalid : v.isValidChar := by
      unfold Nat.isValidChar
      omega
    have hfirst : v / 4096 % 16 = bits := by omega
    have hnext : v / 64 % 64 = m := by omega
    have hlast : v % 64 = k := by omega
    rw [utf8EncodeChar, toNat_ofNat hvalid, if_neg (by omega), if_neg (by omega), if_pos (by omega), hfirst, hnext,
      hlast]
  · obtain ⟨m, rest, rfl, hlow, hhigh, h⟩ := h.of_succ (by split <;> omega)
    obtain ⟨k, rest, rfl, hlow', hhigh', h⟩ := h.of_succ (by omega)
    obtain ⟨l, rfl, hlow'', hhigh'', hv⟩ := h.of_zero (by omega)
    have hm : m < 64 ∧ (bits = 0 → 16 ≤ m) ∧ (bits = 4 → m < 16) := by
      split at hlow <;> split at hhigh <;> omega
    have hvalid : v.isValidChar := .inr (by omega)
    have hfirst : v / 262144 % 8 = bits := by omega
    have hnext : v / 4096 % 64 = m := by omega
    have hthird : v / 64 % 64 = k := by omega
    have hlast : v % 64 = l := by omega
    rw [utf8EncodeChar, toNat_ofNat hvalid, if_neg (by omega), if_neg (by omega), if_neg (by omega), hfirst, hnext,
      hthird, hlast]

theorem encode_ascii {b : UInt8} (h : b.toNat < 0x80) : utf8EncodeChar (Char.ofNat b.toNat) = [b] := by
  have hvalid : b.toNat.isValidChar := .inl (by omega)
  rw [utf8EncodeChar, toNat_ofNat hvalid, if_pos (by omega), UInt8.ofNat_toNat]

theorem encode_cases (c : Char) :
    (∃ b, utf8EncodeChar c = [b] ∧ lead b.toNat = .alone c) ∨
      ∃ b tail bits low high more, utf8EncodeChar c = b :: tail ∧ lead b.toNat = .opens bits low high more ∧
        Completes bits low high more tail c.toNat := by
  have hvalid : c.toNat < 0xd800 ∨ 0xdfff < c.toNat ∧ c.toNat < 0x110000 := c.valid
  have hc : Char.ofNat c.toNat = c := Char.ofNat_toNat c
  have hval : c.val.toNat = c.toNat := rfl
  rw [utf8EncodeChar, hval]
  generalize c.toNat = v at hvalid hc
  have hthird : v / 4096 = v / 64 / 64 := by omega
  have hfourth : v / 262144 = v / 64 / 64 / 64 := by omega
  rw [hthird, hfourth]
  split
  · refine .inl ⟨_, rfl, ?_⟩
    rw [UInt8.toNat_ofNat', lead, if_pos (by omega), Nat.mod_eq_of_lt (by omega), hc]
  split
  · have hlead : (UInt8.ofNat (v / 64 % 32 + 192)).toNat = v / 64 + 0xc0 := by
      rw [UInt8.toNat_ofNat']
      omega
    refine .inr ⟨_, _, v / 64, 0x80, 0xbf, 0, rfl, ?_, completes_last v (by omega) (by omega)⟩
    rw [hlead, lead_two (by omega) (by omega)]
  split
  · have hlead : (UInt8.ofNat (v / 64 / 64 % 16 + 224)).toNat = v / 64 / 64 + 0xe0 := by
      rw [UInt8.toNat_ofNat']
      omega
    refine .inr ⟨_, _, _, _, _, _, rfl, hlead ▸ lead_three (by omega), ?_⟩
    refine completes_next ?_ ?_ (completes_last v (by omega) (by omega))
    · split <;> omega
    · split <;> omega
  · have hlead : (UInt8.ofNat (v / 64 / 64 / 64 % 8 + 240)).toNat = v / 64 / 64 / 64 + 0xf0 := by
      rw [UInt8.toNat_ofNat']
      omega
    refine .inr ⟨_, _, _, _, _, _, rfl, hlead ▸ lead_four (by omega), ?_⟩
    refine completes_next ?_ ?_ (completes_next (by omega) (by omega) (completes_last v (by omega) (by omega)))
    · split <;> omega
    · split <;> omega

/-- A character is read from its encoding. -/
theorem front_encode (c : Char) (rest : List UInt8) : front (utf8EncodeChar c ++ rest) = some (c, rest) := by
  rcases encode_cases c with ⟨b, hbytes, hlead⟩ | ⟨b, tail, bits, low, high, more, hbytes, hlead, htail⟩
  · rw [hbytes, List.singleton_append, front, hlead]
  · rw [hbytes, List.cons_append, front, hlead]
    dsimp only
    rw [within_of_completes htail, Char.ofNat_toNat]

/-- Text is read from its encoding, and nothing is held back. -/
theorem decode_encode (cs : List Char) : decode (cs.flatMap utf8EncodeChar) = (cs, []) := by
  induction cs with
  | nil => exact decode_of_none rfl
  | cons c cs ih => rw [List.flatMap_cons, decode_of_some (front_encode c _), ih]

/-- No encoding is read as a replacement character with bytes behind it. -/
theorem not_encode_of_front {bytes rest : List UInt8} (h : front bytes = some (replacement, rest))
    (hrest : rest ≠ [] ∨ bytes.length < 3) (c : Char) : utf8EncodeChar c ≠ bytes := by
  rintro rfl
  have hfront := front_encode c []
  rw [List.append_nil, h] at hfront
  cases hfront
  rcases hrest with hne | hshort
  · exact hne rfl
  · revert hshort
    decide

theorem begins_of_front {bytes : List UInt8} (h : front bytes = none) : Begins bytes := by
  cases bytes with
  | nil => exact ⟨'a', [0x61], nofun, by decide⟩
  | cons b bs =>
      rw [front] at h
      split at h
      · cases h
      · rename_i bits low high more hlead
        obtain ⟨hbounds, hbyte⟩ := bounds_of_lead hlead
        obtain ⟨rest, v, hne, hcompletes⟩ := exists_completes h hbounds hbyte
        exact ⟨Char.ofNat v, rest, hne, encode_of_completes hlead hcompletes⟩

/-- Reading from the front gives a character or a longest part that cannot begin one. -/
theorem Lossy.of_front {bytes rest held : List UInt8} {c : Char} {cs : List Char}
    (h : front bytes = some (c, rest)) (hrest : Lossy rest cs held) : Lossy bytes (c :: cs) held := by
  cases bytes with
  | nil => cases h
  | cons b bs =>
      rw [front] at h
      split at h
      · rename_i c' hlead
        cases h
        rcases lead_alone hlead with ⟨hsmall, rfl⟩ | rfl
        · have hchar := Lossy.char (Char.ofNat b.toNat) hrest
          rwa [encode_ascii hsmall] at hchar
        · refine .alone (fun c more => ?_) hrest
          have hfront : front (b :: more) = some (replacement, more) := by rw [front, hlead]
          refine not_encode_of_front hfront ?_ c
          cases more with
          | nil => exact .inr (by simp)
          | cons d more => exact .inl (List.cons_ne_nil d more)
      · rename_i bits low high more hlead
        rcases within_cases h with ⟨tail, v, rfl, hcompletes, rfl⟩ | ⟨taken, d, later, rfl, rfl, rfl, hnone, hsome⟩
        · have hchar := Lossy.char (Char.ofNat v) hrest
          rwa [encode_of_completes hlead hcompletes] at hchar
        · have htaken : front (b :: taken) = none := by
            rw [front, hlead]
            exact hnone
          refine Lossy.cut (List.cons_ne_nil b taken) (begins_of_front htaken) (fun c more => ?_) hrest
          have hfront : front (b :: (taken ++ d :: more)) = some (replacement, d :: more) := by
            rw [front, hlead]
            exact hsome more
          exact not_encode_of_front hfront (.inl (List.cons_ne_nil d more)) c

/-- Decoding is lossy decoding. -/
theorem lossy_decode (bytes : List UInt8) : Lossy bytes (decode bytes).1 (decode bytes).2 := by
  induction hlength : bytes.length using Nat.strongRecOn generalizing bytes with
  | ind n ih =>
      cases hfront : front bytes with
      | none =>
          rw [decode_of_none hfront]
          exact .held (begins_of_front hfront)
      | some first =>
          obtain ⟨c, rest⟩ := first
          rw [decode_of_some hfront]
          exact .of_front hfront (ih rest.length (hlength ▸ length_lt_of_front hfront) rest rfl)

end ScriptRepl.Text.Utf8
