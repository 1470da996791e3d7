import Mathlib

namespace Counted.Foundations

/-- UTF-16 code units. -/
abbrev Units := List UInt16

/-! ### Code points -/

def isHigh (u : UInt16) : Bool := 0xD800 ≤ u && u ≤ 0xDBFF

def isLow (u : UInt16) : Bool := 0xDC00 ≤ u && u ≤ 0xDFFF

/-- The code point of a pair, whose halves hold ten bits each. -/
def paired (hi lo : UInt16) : ℕ := 0x10000 + hi.toNat % 1024 * 1024 + lo.toNat % 1024

/-- A code unit that is not in a pair. -/
def unpaired (u : UInt16) : ℕ := if isHigh u || isLow u then 0xFFFD else u.toNat

/-- The code points, with U+FFFD for each surrogate that is not in a pair. -/
def codePoints : Units → List ℕ
  | [] => []
  | [u] => [unpaired u]
  | u :: v :: s =>
    if isHigh u && isLow v then paired u v :: codePoints s else unpaired u :: codePoints (v :: s)

/-- A code point as UTF-8. -/
def utf8 (p : ℕ) : List ℕ :=
  if p < 0x80 then [p]
  else if p < 0x800 then [0xC0 + p / 64, 0x80 + p % 64]
  else if p < 0x10000 then [0xE0 + p / 4096, 0x80 + p / 64 % 64, 0x80 + p % 64]
  else [0xF0 + p / 262144, 0x80 + p / 4096 % 64, 0x80 + p / 64 % 64, 0x80 + p % 64]

/-! ### Escapes -/

def hexDigit (n : ℕ) : UInt16 := UInt16.ofNat (if n < 10 then 48 + n else 55 + n)

/-- `%XX`. -/
def escapeByte (b : ℕ) : Units := [37, hexDigit (b / 16), hexDigit (b % 16)]

def escapePoint (kept : ℕ → Bool) (p : ℕ) : Units :=
  if p < 0x80 && kept p then [UInt16.ofNat p] else (utf8 p).flatMap escapeByte

/-- UTF-8 percent-encoding, where `kept` says which ASCII characters stay as they are. -/
def percentEncode (kept : ℕ → Bool) (s : Units) : Units := (codePoints s).flatMap (escapePoint kept)

/-- A unit that stays as it is. -/
def Plain (kept : ℕ → Bool) (u : UInt16) : Prop := u.toNat < 0x80 ∧ kept u.toNat = true

/-- The percent sign and the digits of escapes are kept. -/
structure Stable (kept : ℕ → Bool) : Prop where
  percent : kept 37 = true
  digits : ∀ n < 16, kept (hexDigit n).toNat = true

variable {kept : ℕ → Bool} {u v : UInt16} {s t : Units} {p : ℕ}

theorem isHigh_iff : isHigh u = true ↔ 0xD800 ≤ u.toNat ∧ u.toNat ≤ 0xDBFF := by
  simp [isHigh, UInt16.le_iff_toNat_le]

theorem isLow_iff : isLow u = true ↔ 0xDC00 ≤ u.toNat ∧ u.toNat ≤ 0xDFFF := by
  simp [isLow, UInt16.le_iff_toNat_le]

theorem not_surrogate (h : u.toNat < 0x80) : isHigh u = false ∧ isLow u = false := by
  rw [← Bool.not_eq_true, ← Bool.not_eq_true, isHigh_iff, isLow_iff]
  omega

theorem codePoints_cons (h : isHigh u = false) :
    codePoints (u :: s) = unpaired u :: codePoints s := by
  cases s with
  | nil => rfl
  | cons v s => rw [codePoints, h, Bool.false_and, if_neg Bool.false_ne_true]

theorem unpaired_ascii (h : u.toNat < 0x80) : unpaired u = u.toNat := by
  obtain ⟨hhigh, hlow⟩ := not_surrogate h
  rw [unpaired, hhigh, hlow]
  rfl

@[simp] theorem percentEncode_nil : percentEncode kept [] = [] := rfl

theorem percentEncode_cons (h : isHigh u = false) :
    percentEncode kept (u :: s) = escapePoint kept (unpaired u) ++ percentEncode kept s := by
  rw [percentEncode, codePoints_cons h, List.flatMap_cons]
  rfl

theorem percentEncode_plain (h : Plain kept u) :
    percentEncode kept (u :: s) = u :: percentEncode kept s := by
  rw [percentEncode_cons (not_surrogate h.1).1, unpaired_ascii h.1, escapePoint, h.2,
    decide_eq_true h.1]
  simp

/-- Encoding leaves plain text as it is. -/
theorem percentEncode_of_plain (h : ∀ u ∈ s, Plain kept u) : percentEncode kept s = s := by
  induction s with
  | nil => rfl
  | cons u s ih =>
    rw [percentEncode_plain (h u List.mem_cons_self), ih fun v hv ↦ h v (List.mem_cons_of_mem _ hv)]

/-! ### What encoded text holds -/

theorem hexDigit_toNat {n : ℕ} (h : n < 16) :
    (hexDigit n).toNat = if n < 10 then 48 + n else 55 + n := by
  rw [hexDigit, UInt16.toNat_ofNat']
  split_ifs <;> omega

theorem mem_escapeByte {b : ℕ} :
    u ∈ escapeByte b ↔ u = 37 ∨ u = hexDigit (b / 16) ∨ u = hexDigit (b % 16) := by
  simp [escapeByte]

theorem utf8_lt (hp : p < 0x110000) : ∀ b ∈ utf8 p, b < 256 := by
  intro b hb
  rw [utf8] at hb
  split_ifs at hb <;> simp only [List.mem_cons, List.not_mem_nil, or_false] at hb <;> omega

theorem paired_lt (u v : UInt16) : 0x10000 ≤ paired u v ∧ paired u v < 0x110000 := by
  rw [paired]
  omega

theorem unpaired_lt (u : UInt16) : unpaired u < 0x10000 := by
  rw [unpaired]
  split_ifs
  · decide
  · exact u.toNat_lt

theorem codePoints_lt (s : Units) : ∀ p ∈ codePoints s, p < 0x110000 := by
  induction s using codePoints.induct with
  | case1 => exact nofun
  | case2 u =>
    intro p hp
    rw [List.mem_singleton.1 hp]
    exact (unpaired_lt u).trans (by decide)
  | case3 u v s h ih =>
    rw [codePoints, if_pos h]
    exact List.forall_mem_cons.2 ⟨(paired_lt u v).2, ih⟩
  | case4 u v s h ih =>
    rw [codePoints, if_neg h]
    exact List.forall_mem_cons.2 ⟨(unpaired_lt u).trans (by decide), ih⟩

/-- The units of an escape. -/
def Escape (u : UInt16) : Prop := u = 37 ∨ ∃ n < 16, u = hexDigit n

theorem escape_of_mem (hp : p < 0x110000) (h : u ∈ (utf8 p).flatMap escapeByte) : Escape u := by
  obtain ⟨b, hb, hu⟩ := List.mem_flatMap.1 h
  have hb := utf8_lt hp b hb
  rcases mem_escapeByte.1 hu with rfl | rfl | rfl
  · exact .inl rfl
  · exact .inr ⟨_, by omega, rfl⟩
  · exact .inr ⟨_, by omega, rfl⟩

theorem mem_codePoints (hp : p < 0x80) (h : p ∈ codePoints s) : UInt16.ofNat p ∈ s := by
  have hunit {u : UInt16} (hpu : p = unpaired u) : UInt16.ofNat p = u := by
    rw [unpaired] at hpu
    split_ifs at hpu
    · omega
    · rw [hpu, UInt16.ofNat_toNat]
  induction s using codePoints.induct with
  | case1 => cases h
  | case2 u =>
    rw [hunit (List.mem_singleton.1 h)]
    exact List.mem_cons_self
  | case3 u v s hpair ih =>
    rw [codePoints, if_pos hpair] at h
    rcases List.mem_cons.1 h with rfl | h
    · have := (paired_lt u v).1
      omega
    · exact List.mem_cons_of_mem _ (List.mem_cons_of_mem _ (ih h))
  | case4 u v s hpair ih =>
    rw [codePoints, if_neg hpair] at h
    rcases List.mem_cons.1 h with hpu | h
    · rw [hunit hpu]
      exact List.mem_cons_self
    · exact List.mem_cons_of_mem _ (ih h)

/-- A unit of encoded text belongs to an escape or is plain and was there before. -/
theorem mem_percentEncode (h : u ∈ percentEncode kept s) :
    Escape u ∨ Plain kept u ∧ u ∈ s := by
  obtain ⟨p, hp, hu⟩ := List.mem_flatMap.1 h
  rw [escapePoint] at hu
  split_ifs at hu with hkept
  · rw [Bool.and_eq_true, decide_eq_true_eq] at hkept
    rw [List.mem_singleton.1 hu]
    have hnat : (UInt16.ofNat p).toNat = p := by
      rw [UInt16.toNat_ofNat']
      omega
    exact .inr ⟨⟨hnat.symm ▸ hkept.1, hnat.symm ▸ hkept.2⟩, mem_codePoints hkept.1 hp⟩
  · exact .inl (escape_of_mem (codePoints_lt s p hp) hu)

theorem Escape.plain (hk : Stable kept) (h : Escape u) : Plain kept u := by
  rcases h with rfl | ⟨n, hn, rfl⟩
  · exact ⟨by decide, hk.percent⟩
  · refine ⟨?_, hk.digits n hn⟩
    rw [hexDigit_toNat hn]
    split_ifs <;> omega

theorem plain_of_mem (hk : Stable kept) (h : u ∈ percentEncode kept s) : Plain kept u := by
  rcases mem_percentEncode h with h | h
  · exact h.plain hk
  · exact h.1

/-- Encoding twice is encoding once. -/
theorem percentEncode_idem (hk : Stable kept) :
    percentEncode kept (percentEncode kept s) = percentEncode kept s :=
  percentEncode_of_plain fun _ ↦ plain_of_mem hk

theorem utf8_first (hp : 0x80 ≤ p) (hp' : p < 0x110000) :
    ∃ b bs, utf8 p = b :: bs ∧ 0x80 ≤ b ∧ b < 256 := by
  rw [utf8, if_neg (by omega)]
  split_ifs
  · exact ⟨_, _, rfl, by omega, by omega⟩
  · exact ⟨_, _, rfl, by omega, by omega⟩
  · exact ⟨_, _, rfl, by omega, by omega⟩

theorem codePoints_first (hu : 0x80 ≤ u.toNat) :
    ∃ p ps, codePoints (u :: s) = p :: ps ∧ 0x80 ≤ p ∧ p < 0x110000 := by
  have hlow : 0x80 ≤ unpaired u := by
    rw [unpaired]
    split_ifs
    · decide
    · exact hu
  have hhigh : unpaired u < 0x110000 := (unpaired_lt u).trans (by decide)
  cases s with
  | nil => exact ⟨_, _, rfl, hlow, hhigh⟩
  | cons v s =>
    by_cases hpair : (isHigh u && isLow v) = true
    · have hlt := paired_lt u v
      exact ⟨_, _, by rw [codePoints, if_pos hpair], by omega, hlt.2⟩
    · exact ⟨_, _, by rw [codePoints, if_neg hpair], hlow, hhigh⟩

/-- Encoded text is empty, or begins as the text does, or with the escape of a byte. -/
theorem percentEncode_cases (kept : ℕ → Bool) (s : Units) : s = [] ∨
    (∃ u t, s = u :: t ∧ Plain kept u ∧ percentEncode kept s = u :: percentEncode kept t) ∨
    ∃ u t b r, s = u :: t ∧ ¬ Plain kept u ∧ b < 256 ∧ ¬ (b < 0x80 ∧ kept b = true) ∧
      percentEncode kept s = escapeByte b ++ r := by
  cases s with
  | nil => exact .inl rfl
  | cons u t =>
    right
    by_cases hu : u.toNat < 0x80
    · by_cases hkept : kept u.toNat = true
      · exact .inl ⟨u, t, rfl, ⟨hu, hkept⟩, percentEncode_plain ⟨hu, hkept⟩⟩
      · refine .inr ⟨u, t, u.toNat, percentEncode kept t, rfl, fun h ↦ hkept h.2, by omega,
          fun h ↦ hkept h.2, ?_⟩
        rw [percentEncode_cons (not_surrogate hu).1, unpaired_ascii hu, escapePoint, if_neg, utf8,
          if_pos hu, List.flatMap_singleton]
        rw [Bool.and_eq_true]
        exact fun h ↦ hkept h.2
    · obtain ⟨p, ps, hcodes, hp, hp'⟩ := codePoints_first (s := t) (not_lt.1 hu)
      obtain ⟨b, bs, hbytes, hb, hb'⟩ := utf8_first hp hp'
      refine .inr ⟨u, t, b, bs.flatMap escapeByte ++ ps.flatMap (escapePoint kept), rfl,
        fun h ↦ hu h.1, hb', fun h ↦ absurd h.1 (not_lt.2 hb), ?_⟩
      rw [percentEncode, hcodes, List.flatMap_cons, escapePoint, if_neg, hbytes, List.flatMap_cons,
        List.append_assoc]
      rw [Bool.and_eq_true, decide_eq_true_eq]
      exact fun h ↦ absurd h.1 (not_lt.2 hp)

theorem percentEncode_eq_nil : percentEncode kept s = [] ↔ s = [] := by
  constructor
  · intro h
    obtain rfl | ⟨u, t, -, -, hcons⟩ | ⟨u, t, b, r, -, -, -, -, hescape⟩ := percentEncode_cases kept s
    · rfl
    · rw [h] at hcons
      cases hcons
    · rw [h] at hescape
      cases hescape
  · rintro rfl
    rfl

end Counted.Foundations
