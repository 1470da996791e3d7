import Counted.Kernel.Json

namespace Counted.Crypto

def version7 : ℕ := 0x70

def maxCounter : ℕ := 0xfff

structure UuidV7 where
  lastMillis : ℤ
  counter : ℕ

/-- What one call reads: the clock, a seed of the bottom half if it takes one, and the bytes. -/
structure Draw where
  observed : ℤ
  seed : Fin 2047
  bytes : Fin 16 → UInt8

def hexByte (b : UInt8) : JsString := [Json.hexDigit (b.toNat / 16), Json.hexDigit (b.toNat % 16)]

def hex (bytes : List UInt8) : JsString :=
  let s := bytes.flatMap hexByte
  s.take 8 ++ 45 :: ((s.drop 8).take 4 ++ 45 :: ((s.drop 12).take 4 ++ 45 ::
    ((s.drop 16).take 4 ++ 45 :: s.drop 20)))

namespace UuidV7

variable (s : UuidV7) (d : Draw)

def initial : UuidV7 := ⟨-1, 0⟩

/-- A millisecond is borrowed from the future where the counter has run out. -/
def tick : UuidV7 :=
  if s.lastMillis < d.observed then ⟨d.observed, d.seed⟩
  else if maxCounter < s.counter + 1 then ⟨s.lastMillis + 1, d.seed⟩
  else ⟨s.lastMillis, s.counter + 1⟩

/-- Two bytes of the time and then four, as no bitwise operation takes 48 bits. Writing a number
that two bytes do not hold throws. -/
def pack : Option (List UInt8) :=
  let high := s.lastMillis / 4294967296
  let low := (s.lastMillis % 4294967296).toNat
  if 0 ≤ high ∧ high < 65536 then
    some ([(high.toNat / 256).toUInt8, high.toNat.toUInt8, (low / 16777216).toUInt8,
      (low / 65536).toUInt8, (low / 256).toUInt8, low.toUInt8,
      (version7 ||| s.counter >>> 8).toUInt8, (s.counter &&& 0xff).toUInt8,
      d.bytes 8 &&& 0x3f ||| 0x80, d.bytes 9, d.bytes 10, d.bytes 11, d.bytes 12, d.bytes 13,
      d.bytes 14, d.bytes 15])
  else none

def next : UuidV7 × Option JsString := (s.tick d, ((s.tick d).pack d).map hex)

/-- The ids of a sequence of calls, those apart that throw. -/
def ids (s : UuidV7) : List Draw → List JsString
  | [] => []
  | d :: l => (s.next d).2.toList ++ ids (s.next d).1 l

end UuidV7

/-! ### Digits -/

/-- The last `k` digits of a number, the greatest first. -/
def toHex : ℕ → ℕ → JsString
  | 0, _ => []
  | k + 1, n => Json.hexDigit (n / 16 ^ k % 16) :: toHex k n

theorem hexDigit_lt : ∀ a b : Fin 16, a < b → Json.hexDigit a < Json.hexDigit b := by decide

/-- Digits of one length are in the order of the numbers. -/
theorem toHex_lt {k n m : ℕ} (h : n % 16 ^ k < m % 16 ^ k) (x y : JsString) :
    toHex k n ++ x < toHex k m ++ y := by
  induction k with
  | zero => simp [Nat.mod_one] at h
  | succ k ih =>
    rw [Nat.mod_pow_succ, Nat.mod_pow_succ] at h
    rw [toHex, toHex, List.cons_append, List.cons_append, List.cons_lt_cons_iff]
    rcases lt_trichotomy (n / 16 ^ k % 16) (m / 16 ^ k % 16) with hlt | heq | hgt
    · exact .inl (hexDigit_lt ⟨_, Nat.mod_lt _ (by decide)⟩ ⟨_, Nat.mod_lt _ (by decide)⟩ hlt)
    · rw [heq] at h ⊢
      exact .inr ⟨rfl, ih (by omega)⟩
    · have hpow : n % 16 ^ k < 16 ^ k := Nat.mod_lt _ (by positivity)
      have hpow' : m % 16 ^ k < 16 ^ k := Nat.mod_lt _ (by positivity)
      have hmul : 16 ^ k * (m / 16 ^ k % 16 + 1) ≤ 16 ^ k * (n / 16 ^ k % 16) :=
        Nat.mul_le_mul_left _ hgt
      rw [Nat.mul_add, Nat.mul_one] at hmul
      omega

theorem append_lt (s : JsString) {x y : JsString} (h : x < y) : s ++ x < s ++ y := by
  induction s with
  | nil => exact h
  | cons u s ih => exact List.cons_lt_cons_iff.2 (.inr ⟨rfl, ih⟩)

theorem toHex_append (j k n : ℕ) : toHex j (n / 16 ^ k) ++ toHex k n = toHex (j + k) n := by
  induction j with
  | zero => rw [Nat.zero_add, toHex, List.nil_append]
  | succ j ih =>
    rw [toHex, List.cons_append, ih, Nat.succ_add, toHex, Nat.div_div_eq_div_mul, ← Nat.pow_add,
      Nat.add_comm k j]

theorem hexByte_toUInt8 (n : ℕ) : hexByte n.toUInt8 = toHex 2 n := by
  have hnat : n.toUInt8.toNat = n % 256 := UInt8.toNat_ofNat'
  rw [hexByte, hnat, toHex, toHex, toHex, pow_one, pow_zero, Nat.div_one]
  have hhigh : n % 256 / 16 = n / 16 % 16 := by omega
  have hlow : n % 256 % 16 = n % 16 := by omega
  rw [hhigh, hlow]

/-! ### The text of an id -/

def isLowerHex (u : UInt16) : Bool := (48 ≤ u && u ≤ 57) || (97 ≤ u && u ≤ 102)

/-- `xxxxxxxx-xxxx-7xxx-[89ab]xxx-xxxxxxxxxxxx`. -/
def IsUuidV7 (id : JsString) : Prop :=
  ∃ a b c d e, id = a ++ 45 :: (b ++ 45 :: (55 :: c ++ 45 :: (d ++ 45 :: e))) ∧
    (∀ u ∈ a ++ b ++ c ++ d ++ e, isLowerHex u = true) ∧ a.length = 8 ∧ b.length = 4 ∧
    c.length = 3 ∧ d.length = 4 ∧ e.length = 12 ∧ ∃ v ∈ d.head?, v ∈ [56, 57, 97, 98]

/-- The time, the counter behind the version, and the random bytes. -/
def text (millis counter : ℕ) (rest : JsString) : JsString :=
  toHex 8 (millis / 65536) ++ 45 :: (toHex 4 millis ++ 45 :: (55 :: toHex 3 counter ++ 45 :: rest))

theorem text_lt {m m' c c' : ℕ} (hm : m' < 2 ^ 48) (hc : c < 4096) (hc' : c' < 4096)
    (h : m * 4096 + c < m' * 4096 + c') (x y : JsString) : text m c x < text m' c' y := by
  rw [text, text]
  rcases lt_or_ge (m / 65536) (m' / 65536) with hhigh | hhigh
  · apply toHex_lt
    omega
  · have heq : m / 65536 = m' / 65536 := by omega
    rw [heq]
    apply append_lt
    refine List.cons_lt_cons_iff.2 (.inr ⟨rfl, ?_⟩)
    rcases lt_or_ge (m % 65536) (m' % 65536) with hlow | hlow
    · exact toHex_lt hlow _ _
    · obtain rfl : m = m' := by omega
      apply append_lt
      refine List.cons_lt_cons_iff.2 (.inr ⟨rfl, List.cons_lt_cons_iff.2 (.inr ⟨rfl, ?_⟩)⟩)
      apply toHex_lt
      omega

theorem hexDigit_isLowerHex : ∀ a : Fin 16, isLowerHex (Json.hexDigit a) = true := by decide

theorem toHex_isLowerHex (k n : ℕ) : ∀ u ∈ toHex k n, isLowerHex u = true := by
  induction k with
  | zero => simp [toHex]
  | succ k ih =>
    intro u hu
    rcases List.mem_cons.1 hu with rfl | hu
    · exact hexDigit_isLowerHex ⟨_, Nat.mod_lt _ (by decide)⟩
    · exact ih u hu

theorem length_toHex (k n : ℕ) : (toHex k n).length = k := by
  induction k with
  | zero => rfl
  | succ k ih => rw [toHex, List.length_cons, ih]

theorem hexByte_isLowerHex (b : UInt8) : ∀ u ∈ hexByte b, isLowerHex u = true := by
  have heq : hexByte b = toHex 2 b.toNat :=
    (congrArg hexByte UInt8.ofNat_toNat.symm).trans (hexByte_toUInt8 b.toNat)
  rw [heq]
  exact toHex_isLowerHex 2 b.toNat

/-- The variant leaves two bits of its byte alone. -/
theorem variant_head (b : UInt8) :
    Json.hexDigit ((b &&& 0x3f ||| 0x80).toNat / 16) ∈ ([56, 57, 97, 98] : List UInt16) := by
  have hmod : (b &&& 0x3f ||| 0x80).toNat = b.toNat % 64 ||| 128 := by
    rw [UInt8.toNat_or, UInt8.toNat_and]
    exact congrArg (· ||| 128) (Nat.and_two_pow_sub_one_eq_mod b.toNat 6)
  rw [hmod]
  have hlt : b.toNat % 64 < 64 := Nat.mod_lt _ (by decide)
  generalize b.toNat % 64 = r at hlt
  interval_cases r <;> decide

theorem toHex_two {n m : ℕ} (h : n % 256 = m % 256) : toHex 2 n = toHex 2 m := by
  have hhigh : n / 16 ^ 1 % 16 = m / 16 ^ 1 % 16 := by omega
  have hlow : n / 16 ^ 0 % 16 = m / 16 ^ 0 % 16 := by omega
  rw [toHex, toHex, toHex, toHex, hhigh, hlow]
  rfl

theorem toHex_pairs (n : ℕ) : toHex 2 (n / 256) ++ toHex 2 n = toHex 4 n := toHex_append 2 2 n

theorem toHex_quads (n : ℕ) : toHex 4 (n / 65536) ++ toHex 4 n = toHex 8 n := toHex_append 4 4 n

/-- The first six bytes of a time of 48 bits. -/
theorem time_text (m : ℕ) :
    hexByte (m / 4294967296 / 256).toUInt8 ++ hexByte (m / 4294967296).toUInt8 ++
        hexByte (m % 4294967296 / 16777216).toUInt8 ++ hexByte (m % 4294967296 / 65536).toUInt8 =
      toHex 8 (m / 65536) ∧
    hexByte (m % 4294967296 / 256).toUInt8 ++ hexByte (m % 4294967296).toUInt8 = toHex 4 m := by
  simp only [hexByte_toUInt8]
  have h1 : toHex 2 (m / 4294967296 / 256) = toHex 2 (m / 65536 / 65536 / 256) := by
    rw [Nat.div_div_eq_div_mul, Nat.div_div_eq_div_mul, Nat.div_div_eq_div_mul]
  have h2 : toHex 2 (m / 4294967296) = toHex 2 (m / 65536 / 65536) := by
    rw [Nat.div_div_eq_div_mul]
  have h3 : toHex 2 (m % 4294967296 / 16777216) = toHex 2 (m / 65536 / 256) :=
    toHex_two (by omega)
  have h4 : toHex 2 (m % 4294967296 / 65536) = toHex 2 (m / 65536) := toHex_two (by omega)
  have h5 : toHex 2 (m % 4294967296 / 256) = toHex 2 (m / 256) := toHex_two (by omega)
  have h6 : toHex 2 (m % 4294967296) = toHex 2 m := toHex_two (by omega)
  rw [h1, h2, h3, h4, h5, h6, List.append_assoc, toHex_pairs, toHex_pairs, toHex_pairs,
    toHex_quads]
  exact ⟨rfl, rfl⟩

/-- The version stands before the counter. -/
theorem counter_text {c : ℕ} (h : c ≤ maxCounter) :
    hexByte (version7 ||| c >>> 8).toUInt8 ++ hexByte (c &&& 0xff).toUInt8 =
      55 :: toHex 3 c := by
  have hhigh : version7 ||| c >>> 8 = 7 * 16 + c / 256 := by
    rw [Nat.shiftRight_eq_div_pow]
    have hlt : c / 2 ^ 8 < 16 := by
      rw [maxCounter] at h
      omega
    change 112 ||| c / 2 ^ 8 = 7 * 16 + c / 2 ^ 8
    generalize c / 2 ^ 8 = k at hlt
    interval_cases k <;> decide
  have hlow : c &&& 0xff = c % 256 := Nat.and_two_pow_sub_one_eq_mod c 8
  rw [hhigh, hlow, hexByte_toUInt8, hexByte_toUInt8]
  have hversion : (7 * 16 + c / 256) / 16 ^ 1 % 16 = 7 := by
    rw [maxCounter] at h
    omega
  have hfirst : (7 * 16 + c / 256) / 16 ^ 0 % 16 = c / 16 ^ 2 % 16 := by omega
  have hrest : toHex 2 (c % 256) = toHex 2 c := toHex_two (by omega)
  rw [hrest, toHex, toHex, hversion, hfirst]
  rfl

theorem hex_eq (b₀ b₁ b₂ b₃ b₄ b₅ b₆ b₇ b₈ b₉ b₁₀ b₁₁ b₁₂ b₁₃ b₁₄ b₁₅ : UInt8) :
    hex [b₀, b₁, b₂, b₃, b₄, b₅, b₆, b₇, b₈, b₉, b₁₀, b₁₁, b₁₂, b₁₃, b₁₄, b₁₅] =
      hexByte b₀ ++ hexByte b₁ ++ hexByte b₂ ++ hexByte b₃ ++ 45 :: (hexByte b₄ ++ hexByte b₅ ++
        45 :: (hexByte b₆ ++ hexByte b₇ ++ 45 :: (hexByte b₈ ++ hexByte b₉ ++ 45 ::
          [b₁₀, b₁₁, b₁₂, b₁₃, b₁₄, b₁₅].flatMap hexByte))) := rfl

namespace UuidV7

variable {s : UuidV7} {d : Draw} {bytes : List UInt8}

theorem hex_pack (hc : s.counter ≤ maxCounter) (h : s.pack d = some bytes) :
    0 ≤ s.lastMillis ∧ s.lastMillis < 2 ^ 48 ∧ IsUuidV7 (hex bytes) ∧
      ∃ rest, hex bytes = text s.lastMillis.toNat s.counter rest := by
  unfold pack at h
  extract_lets high low at h
  split_ifs at h with hhigh
  obtain rfl := Option.some.inj h
  have hpos : 0 ≤ s.lastMillis := by
    by_contra hneg
    have := hhigh.1
    omega
  have hlt : s.lastMillis < 2 ^ 48 := by
    have := hhigh.2
    omega
  have hm : high.toNat = s.lastMillis.toNat / 4294967296 := by omega
  have hl : low = s.lastMillis.toNat % 4294967296 := by omega
  obtain ⟨htime, htime'⟩ := time_text s.lastMillis.toNat
  rw [← hm, ← hl] at htime
  rw [← hl] at htime'
  rw [hex_eq, htime, htime', counter_text hc]
  refine ⟨hpos, hlt, ⟨_, _, _, _, _, rfl, ?_, length_toHex _ _, length_toHex _ _,
    length_toHex _ _, rfl, rfl, _, rfl, variant_head _⟩, _, rfl⟩
  intro u hu
  simp only [List.mem_append, List.mem_flatMap, or_assoc] at hu
  rcases hu with hu | hu | hu | hu | hu | ⟨b, -, hu⟩
  · exact toHex_isLowerHex _ _ u hu
  · exact toHex_isLowerHex _ _ u hu
  · exact toHex_isLowerHex _ _ u hu
  · exact hexByte_isLowerHex _ u hu
  · exact hexByte_isLowerHex _ u hu
  · exact hexByte_isLowerHex _ u hu

theorem pack_isSome (hpos : 0 ≤ s.lastMillis) (hlt : s.lastMillis < 2 ^ 48) (d : Draw) :
    (s.pack d).isSome = true := by
  unfold pack
  extract_lets high low
  have hhigh : 0 ≤ high ∧ high < 65536 := by omega
  rw [if_pos hhigh]
  rfl

/-- What the ids are ordered by. -/
def key (s : UuidV7) : ℤ := s.lastMillis * 4096 + s.counter

structure Sound (s : UuidV7) : Prop where
  counter : s.counter ≤ maxCounter
  lastMillis : -1 ≤ s.lastMillis

/-- A call goes forward, past the clock or past the last id by one at most. -/
theorem Sound.tick (h : s.Sound) (d : Draw) : (s.tick d).Sound ∧ s.key < (s.tick d).key ∧
    s.lastMillis ≤ (s.tick d).lastMillis ∧ (0 ≤ d.observed → 0 ≤ (s.tick d).lastMillis) ∧
    (s.tick d).lastMillis ≤ max d.observed (s.lastMillis + 1) := by
  obtain ⟨hcounter, hmillis⟩ := h
  have hseed := d.seed.isLt
  rw [maxCounter] at hcounter
  unfold UuidV7.tick key maxCounter
  split_ifs with hclock hover
  · refine ⟨⟨?_, ?_⟩, ?_, ?_, ?_, le_max_left _ _⟩
    · rw [maxCounter]
      dsimp only
      omega
    · dsimp only
      omega
    · dsimp only
      omega
    · dsimp only
      omega
    · exact fun h ↦ h
  · refine ⟨⟨?_, ?_⟩, ?_, ?_, ?_, le_max_right _ _⟩
    · rw [maxCounter]
      dsimp only
      omega
    · dsimp only
      omega
    · dsimp only
      omega
    · dsimp only
      omega
    · dsimp only
      omega
  · refine ⟨⟨?_, hmillis⟩, ?_, le_rfl, ?_, ?_⟩
    · rw [maxCounter]
      dsimp only
      omega
    · dsimp only
      push_cast
      omega
    · dsimp only
      omega
    · dsimp only
      omega

/-- Every id of a run is the text of a time and a counter past those the run starts with. -/
theorem ids_run (h : s.Sound) {l : List Draw} {n : ℕ} (hn : n + l.length ≤ 2 ^ 47)
    (hlast : s.lastMillis < 2 ^ 47 + n) (hl : ∀ d ∈ l, d.observed < 2 ^ 47) :
    (∀ id ∈ s.ids l, IsUuidV7 id ∧ ∃ m c : ℕ, ∃ rest, c < 4096 ∧ m < 2 ^ 48 ∧
      s.key < m * 4096 + c ∧ id = text m c rest) ∧ (s.ids l).Pairwise (· < ·) ∧
      ((∀ d ∈ l, 0 ≤ d.observed) → (s.ids l).length = l.length) := by
  induction l generalizing s n with
  | nil => exact ⟨by simp [ids], .nil, fun _ ↦ rfl⟩
  | cons d l ih =>
    obtain ⟨hsound, hkey, hle, hpos, hmax⟩ := h.tick d
    have hd := hl d List.mem_cons_self
    rw [List.length_cons] at hn
    obtain ⟨hform, hpair, hlen⟩ := ih (s := s.tick d) (n := n + 1) hsound (by omega)
      (by push_cast; omega) (fun e he ↦ hl e (List.mem_cons_of_mem d he))
    have hids : s.ids (d :: l) = (((s.tick d).pack d).map hex).toList ++ (s.tick d).ids l := rfl
    rw [hids]
    have hlater : ∀ id ∈ (s.tick d).ids l, IsUuidV7 id ∧ ∃ m c : ℕ, ∃ rest, c < 4096 ∧
        m < 2 ^ 48 ∧ s.key < m * 4096 + c ∧ id = text m c rest := by
      intro id hid
      obtain ⟨huuid, m, c, rest, hc, hm, hafter, rfl⟩ := hform id hid
      exact ⟨huuid, m, c, rest, hc, hm, hkey.trans hafter, rfl⟩
    cases hpack : (s.tick d).pack d with
    | none =>
      refine ⟨hlater, hpair, fun hall ↦ ?_⟩
      have hnow := hpos (hall d List.mem_cons_self)
      have hsome := pack_isSome hnow (by omega) d
      rw [hpack] at hsome
      exact absurd hsome Bool.false_ne_true
    | some bytes =>
      obtain ⟨hnow, hlt, huuid, rest, htext⟩ := hex_pack hsound.counter hpack
      have hcounter : (s.tick d).counter < 4096 := Nat.lt_succ_of_le hsound.counter
      have hvalue : (s.tick d).key =
          ((s.tick d).lastMillis.toNat : ℤ) * 4096 + (s.tick d).counter := by
        rw [key, Int.toNat_of_nonneg hnow]
      refine ⟨fun id hid ↦ ?_, List.pairwise_cons.2 ⟨fun id hid ↦ ?_, hpair⟩, fun hall ↦ ?_⟩
      · rcases List.mem_cons.1 hid with rfl | hid
        · exact ⟨huuid, _, _, rest, hcounter, by omega, hvalue ▸ hkey, htext⟩
        · exact hlater id hid
      · obtain ⟨-, m, c, rest', hc, hm, hafter, rfl⟩ := hform id hid
        rw [htext]
        refine text_lt hm hcounter hc ?_ _ _
        rw [hvalue] at hafter
        exact_mod_cast hafter
      · have htail := hlen fun e he ↦ hall e (List.mem_cons_of_mem d he)
        exact congrArg (· + 1) htail

end UuidV7

/-- Of fewer than 2^47 calls with readings below 2^47, every id that is returned is a UUID of
version 7 past all those before it; and where no reading is below zero, every call returns one. -/
theorem uuid_v7_monotone (l : List Draw) (hlen : l.length < 2 ^ 47)
    (hl : ∀ d ∈ l, d.observed < 2 ^ 47) :
    (∀ id ∈ UuidV7.initial.ids l, IsUuidV7 id) ∧ (UuidV7.initial.ids l).Pairwise (· < ·) ∧
      ((∀ d ∈ l, 0 ≤ d.observed) → (UuidV7.initial.ids l).length = l.length) := by
  have hsound : UuidV7.initial.Sound := ⟨by decide, le_rfl⟩
  obtain ⟨hform, hpair, hall⟩ := UuidV7.ids_run (n := 0) hsound (by omega) (by decide) hl
  exact ⟨fun id hid ↦ (hform id hid).1, hpair, hall⟩

/-- The clock steps back between two calls. -/
theorem uuid_v7_monotone_sample :
    (UuidV7.initial.ids [⟨1785542400000, 7, fun _ ↦ 0⟩, ⟨1785542399000, 3, fun _ ↦ 255⟩]).Pairwise
      (· < ·) :=
  (uuid_v7_monotone [⟨1785542400000, 7, fun _ ↦ 0⟩, ⟨1785542399000, 3, fun _ ↦ 255⟩]
    (by decide) (by decide)).2.1

end Counted.Crypto
