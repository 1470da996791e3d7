import Counted.Foundations.Binary64

namespace Counted.Sdk

open Foundations

/-- The largest of the 64-bit words without a sign. -/
def u64Max : ℕ := 2 ^ 64 - 1

def i64Max : ℤ := 2 ^ 63 - 1

def backoffMaxMs : ℕ := 60000

namespace Rust

/-- `as u64` saturates, and takes a `nan` to zero. -/
def toU64 : Binary64 → ℕ
  | .nan | .infinity true => 0
  | .infinity false => u64Max
  | .finite q => min u64Max ⌊q⌋₊

/-- A sum that does not fit stops the process, or wraps where it is built without the check. -/
def addU64 (a b : ℕ) : Option ℕ := if a + b ≤ u64Max then some (a + b) else none

def retryAfterMs (seconds : Binary64) : ℕ := toU64 (seconds.mul (.finite 1000))

/-- The pause, and the number of failures. -/
def backoff (now attempt : ℕ) (jitter : ℚ) : Option (ℕ × ℕ) :=
  if attempt + 1 < 2 ^ 32 then
    let ceiling := min backoffMaxMs (500 * 2 ^ min (attempt + 1 - 1) 20)
    (addU64 now (toU64 ((Binary64.finite jitter).mul (.finite ceiling)))).map (·, attempt + 1)
  else none

/-- What `handle` does with the pause when a reply is retried. -/
def pause (parse : String → Option Binary64) (header : Option String) (now attempt : ℕ)
    (jitter : ℚ) : Option (ℕ × ℕ) :=
  match header.bind parse with
  | some seconds => (addU64 now (retryAfterMs seconds)).map (·, attempt)
  | none => backoff now attempt jitter

end Rust

namespace Go

/-- A conversion that does not fit is left to the implementation. -/
def toInt64 (beyond : Binary64 → Int64) : Binary64 → ℤ
  | .finite q =>
    if -2 ^ 63 ≤ Binary64.truncate q ∧ Binary64.truncate q ≤ i64Max then Binary64.truncate q
    else (beyond (.finite q)).toInt
  | x => (beyond x).toInt

/-- Sums wrap. -/
def addInt64 (a b : ℤ) : ℤ := (a + b).bmod (2 ^ 64)

variable (beyond : Binary64 → Int64)

def retryAfterMs (seconds : Binary64) : ℤ := toInt64 beyond (seconds.mul (.finite 1000))

/-- `math.Pow(2, k)`. -/
def pow2 (k : ℤ) : Binary64 :=
  if 1023 < k then .infinity false else if k < -1074 then .finite 0 else .finite (2 ^ k)

def backoff (now attempt : ℤ) (random : ℚ) : ℤ × ℤ :=
  let attempt := addInt64 attempt 1
  let ceiling :=
    (Binary64.finite backoffMaxMs).min ((Binary64.finite 500).mul (pow2 (addInt64 attempt (-1))))
  (addInt64 now (toInt64 beyond ((Binary64.finite random).mul ceiling)), attempt)

/-- What `send` does with the pause when a reply is retried. -/
def pause (parse : String → Option Binary64) (header : Option String) (now attempt : ℤ)
    (random : ℚ) : ℤ × ℤ :=
  match header.bind parse with
  | some seconds => (addInt64 now (retryAfterMs beyond seconds), attempt)
  | none => backoff beyond now attempt random

end Go

/-- A wait of so many seconds ends in time, in a word that has this much room. -/
def Honours (room : ℤ) (s : ℚ) : Prop :=
  ⌊Binary64.nearest (s * 1000)⌋ ≤ room ∧
    (⌊s * 1000⌋ ≤ ⌊Binary64.nearest (s * 1000)⌋ ∨ ⌊Binary64.nearest (s * 1000)⌋ = room)

/-- Up to some 285,000 years nothing is rounded away. -/
theorem honours_of_le {room : ℤ} {s : ℚ} (hs : 0 ≤ s) (hle : s * 1000 ≤ 2 ^ 53)
    (hroom : 2 ^ 53 ≤ room) : Honours room s := by
  have hpos : 0 ≤ s * 1000 := by positivity
  have hupper : Binary64.nearest (s * 1000) ≤ ((2 ^ 53 : ℕ) : ℚ) :=
    Binary64.nearest_le_natCast le_rfl hpos (by exact_mod_cast hle)
  refine ⟨?_, .inl (Binary64.floor_le_floor_nearest hpos hle)⟩
  have hfloor : ⌊Binary64.nearest (s * 1000)⌋ ≤ 2 ^ 53 := by
    have hle' := (Int.floor_le (Binary64.nearest (s * 1000))).trans hupper
    exact_mod_cast hle'
  exact hfloor.trans hroom

/-- A jitter of at most one leaves a backoff within its ceiling. -/
theorem nearest_jitter {jitter ceiling : ℚ} (h0 : 0 ≤ jitter) (h1 : jitter ≤ 1) (hc : 0 ≤ ceiling)
    (hmax : ceiling ≤ backoffMaxMs) :
    0 ≤ Binary64.nearest (jitter * ceiling) ∧
      Binary64.nearest (jitter * ceiling) ≤ backoffMaxMs := by
  have hpos : 0 ≤ jitter * ceiling := mul_nonneg h0 hc
  have hle : jitter * ceiling ≤ backoffMaxMs :=
    (mul_le_of_le_one_left hc h1).trans hmax
  exact ⟨Binary64.nearest_nonneg hpos, Binary64.nearest_le_natCast (by decide) hpos hle⟩

namespace Rust

theorem toU64_ofRat (q : ℚ) :
    toU64 (Binary64.ofRat q) = min u64Max ⌊Binary64.nearest q⌋₊ := by
  rw [Binary64.ofRat]
  split_ifs with hbig
  · rcases lt_or_ge q 0 with hneg | hpos
    · rw [decide_eq_true hneg, Nat.floor_of_nonpos (Binary64.nearest_nonpos hneg.le), Nat.min_zero]
      rfl
    · rw [decide_eq_false (not_lt.2 hpos)]
      rw [abs_of_nonneg (Binary64.nearest_nonneg hpos)] at hbig
      have hword : (u64Max : ℚ) ≤ 2 ^ 64 := by exact_mod_cast Nat.sub_le _ _
      have hpow : (2 : ℚ) ^ 64 ≤ 2 ^ 1024 := pow_le_pow_right₀ (by norm_num) (by decide)
      have hfloor : u64Max ≤ ⌊Binary64.nearest q⌋₊ := Nat.le_floor (hword.trans (hpow.trans hbig))
      exact (Nat.min_eq_left hfloor).symm
  · rfl

variable {parse : String → Option Binary64} {header : Option String} {now attempt : ℕ} {jitter : ℚ}

/-- The pause ends at a time that fits, after the reply, and as late as the header asks. -/
def Safe (parse : String → Option Binary64) (header : Option String) (now attempt : ℕ)
    (jitter : ℚ) : Prop :=
  ∃ p n, pause parse header now attempt jitter = some (p, n) ∧ now ≤ p ∧
    (header.bind parse = none → p ≤ now + backoffMaxMs) ∧
    ∀ s, header.bind parse = some (.finite s) → 0 ≤ s → now + ⌊s * 1000⌋₊ ≤ p ∨ p = u64Max

/-- The headers that the arithmetic has room for. -/
def Meets (parse : String → Option Binary64) (header : Option String) (now attempt : ℕ) : Prop :=
  match header.bind parse with
  | none => attempt + 1 < 2 ^ 32
  | some (.finite s) =>
    s < 0 ∨ Honours (u64Max - now) s ∨ now = 0 ∧ u64Max < ⌊Binary64.nearest (s * 1000)⌋
  | some (.infinity false) => now = 0
  | some (.infinity true) | some .nan => True

theorem addU64_of_le {a b : ℕ} (h : a + b ≤ u64Max) : addU64 a b = some (a + b) := if_pos h

theorem backoff_eq (h0 : 0 ≤ jitter) (h1 : jitter ≤ 1) (hnow : now + backoffMaxMs ≤ u64Max)
    (hattempt : attempt + 1 < 2 ^ 32) :
    ∃ d ≤ backoffMaxMs, backoff now attempt jitter = some (now + d, attempt + 1) := by
  have hceiling : ((min backoffMaxMs (500 * 2 ^ min (attempt + 1 - 1) 20) : ℕ) : ℚ) ≤
      backoffMaxMs := by exact_mod_cast min_le_left _ _
  obtain ⟨hpos, hmax⟩ := nearest_jitter h0 h1 (Nat.cast_nonneg _) hceiling
  have hd : toU64 (Binary64.ofRat (jitter * (min backoffMaxMs (500 * 2 ^ min (attempt + 1 - 1) 20) : ℕ)))
      ≤ backoffMaxMs := by
    rw [toU64_ofRat]
    refine (min_le_right _ _).trans ?_
    exact Nat.floor_le_of_le hmax
  refine ⟨_, hd, ?_⟩
  rw [backoff, if_pos hattempt]
  exact congrArg (Option.map (·, attempt + 1)) (addU64_of_le ((Nat.add_le_add_left hd now).trans hnow))

theorem safe_of_seconds {seconds : Binary64} (h : header.bind parse = some seconds) :
    Safe parse header now attempt jitter ↔ now + retryAfterMs seconds ≤ u64Max ∧
      ∀ s, seconds = .finite s → 0 ≤ s →
        now + ⌊s * 1000⌋₊ ≤ now + retryAfterMs seconds ∨ now + retryAfterMs seconds = u64Max := by
  have hpause : pause parse header now attempt jitter =
      (addU64 now (retryAfterMs seconds)).map (·, attempt) := by
    rw [pause, h]
  rw [Safe, hpause, h]
  by_cases hfits : now + retryAfterMs seconds ≤ u64Max
  · rw [addU64_of_le hfits]
    constructor
    · rintro ⟨p, n, heq, -, -, hlate⟩
      obtain ⟨rfl, rfl⟩ := Prod.mk.inj (Option.some.inj heq)
      exact ⟨hfits, fun s hs ↦ hlate s (congrArg some hs)⟩
    · rintro ⟨-, hlate⟩
      exact ⟨_, _, rfl, Nat.le_add_right _ _, fun hnone ↦ absurd hnone (by simp),
        fun s hs ↦ hlate s (Option.some.inj hs)⟩
  · rw [addU64, if_neg hfits]
    constructor
    · rintro ⟨p, n, heq, -⟩
      exact absurd heq (by simp)
    · exact fun h ↦ absurd h.1 hfits

theorem safe_iff (h0 : 0 ≤ jitter) (h1 : jitter ≤ 1) (hnow : now + backoffMaxMs ≤ u64Max) :
    Safe parse header now attempt jitter ↔ Meets parse header now attempt := by
  rw [Meets]
  cases h : header.bind parse with
  | none =>
    have hpause : pause parse header now attempt jitter = backoff now attempt jitter := by
      rw [pause, h]
    dsimp only
    rw [Safe, hpause, h]
    by_cases hattempt : attempt + 1 < 2 ^ 32
    · obtain ⟨d, hd, heq⟩ := backoff_eq h0 h1 hnow hattempt
      refine iff_of_true ⟨_, _, heq, Nat.le_add_right _ _, fun _ ↦ Nat.add_le_add_left hd _, ?_⟩ hattempt
      exact fun s hs ↦ absurd hs (by simp)
    · rw [backoff, if_neg hattempt]
      refine iff_of_false ?_ hattempt
      rintro ⟨p, n, heq, -⟩
      exact absurd heq (by simp)
  | some seconds =>
    rw [safe_of_seconds h]
    cases seconds with
    | nan =>
      refine iff_of_true ⟨?_, fun s hs ↦ absurd hs (by simp)⟩ trivial
      exact (Nat.le_add_right now backoffMaxMs).trans hnow
    | infinity negative =>
      cases negative with
      | true =>
        refine iff_of_true ⟨?_, fun s hs ↦ absurd hs (by simp)⟩ trivial
        exact (Nat.le_add_right now backoffMaxMs).trans hnow
      | false =>
        have hms : retryAfterMs (.infinity false) = u64Max := by
          rw [retryAfterMs, Binary64.mul, if_neg (by norm_num)]
          norm_num [toU64]
        rw [hms]
        constructor
        · rintro ⟨hfits, -⟩
          show now = 0
          omega
        · rintro rfl
          exact ⟨(Nat.zero_add _).le, fun s hs ↦ absurd hs (by simp)⟩
    | finite s =>
      have hms : retryAfterMs (.finite s) = min u64Max ⌊Binary64.nearest (s * 1000)⌋₊ :=
        toU64_ofRat _
      rw [hms]
      dsimp only
      rcases lt_or_ge s 0 with hneg | hpos
      · have hzero : ⌊Binary64.nearest (s * 1000)⌋₊ = 0 :=
          Nat.floor_of_nonpos (Binary64.nearest_nonpos (by linarith))
        rw [hzero, Nat.min_zero]
        refine iff_of_true ⟨(Nat.le_add_right now backoffMaxMs).trans hnow, ?_⟩ (.inl hneg)
        rintro _ ⟨⟩ hs
        exact absurd hneg (not_lt.2 hs)
      · have hmul : 0 ≤ s * 1000 := by positivity
        have hexact := Int.natCast_floor_eq_floor hmul
        have hround := Int.natCast_floor_eq_floor (Binary64.nearest_nonneg hmul)
        have hlate : (∀ r, Binary64.finite s = .finite r → 0 ≤ r →
            now + ⌊r * 1000⌋₊ ≤ now + min u64Max ⌊Binary64.nearest (s * 1000)⌋₊ ∨
              now + min u64Max ⌊Binary64.nearest (s * 1000)⌋₊ = u64Max) ↔
            now + ⌊s * 1000⌋₊ ≤ now + min u64Max ⌊Binary64.nearest (s * 1000)⌋₊ ∨
              now + min u64Max ⌊Binary64.nearest (s * 1000)⌋₊ = u64Max :=
          ⟨fun h ↦ h s rfl hpos, by rintro h _ ⟨⟩ -; exact h⟩
        rw [hlate, Honours, or_iff_right (not_lt.2 hpos), ← hexact, ← hround]
        generalize ⌊s * 1000⌋₊ = exact at *
        generalize ⌊Binary64.nearest (s * 1000)⌋₊ = rounded at *
        omega

end Rust

namespace Go

variable {beyond : Binary64 → Int64} {parse : String → Option Binary64} {header : Option String}
  {now attempt : ℤ} {random : ℚ}

def Fits (a : ℤ) : Prop := -2 ^ 63 ≤ a ∧ a ≤ i64Max

/-- Whatever a conversion that does not fit gives, the sum has not wrapped, and the pause ends
after the reply and as late as the header asks. -/
def Safe (parse : String → Option Binary64) (header : Option String) (now attempt : ℤ)
    (random : ℚ) : Prop :=
  ∀ beyond, now ≤ (pause beyond parse header now attempt random).1 ∧
    (header.bind parse = none →
      (pause beyond parse header now attempt random).1 ≤ now + backoffMaxMs) ∧
    ∀ seconds, header.bind parse = some seconds →
      (pause beyond parse header now attempt random).1 = now + retryAfterMs beyond seconds ∧
      ∀ s, seconds = .finite s → 0 ≤ s →
        now + ⌊s * 1000⌋ ≤ (pause beyond parse header now attempt random).1 ∨
          (pause beyond parse header now attempt random).1 = i64Max

/-- The headers that the arithmetic has room for. -/
def Meets (parse : String → Option Binary64) (header : Option String) (now : ℤ) : Prop :=
  match header.bind parse with
  | none => True
  | some (.finite s) =>
    -1 < Binary64.nearest (s * 1000) ∧ Binary64.nearest (s * 1000) < 2 ^ 63 ∧
      (0 ≤ s → Honours (i64Max - now) s)
  | some (.infinity _) | some .nan => False

theorem addInt64_of_fits {a b : ℤ} (h : Fits (a + b)) : addInt64 a b = a + b := by
  obtain ⟨hlow, hhigh⟩ := h
  rw [i64Max] at hhigh
  exact Int.bmod_eq_of_le (by norm_num; omega) (by norm_num; omega)

theorem fits_addInt64 (a b : ℤ) : Fits (addInt64 a b) := by
  have hlow := Int.le_bmod (x := a + b) (m := 2 ^ 64) (by decide)
  have hhigh := Int.bmod_lt (x := a + b) (m := 2 ^ 64) (by decide)
  rw [Fits, addInt64, i64Max]
  norm_num at hlow hhigh ⊢
  omega

theorem truncate_of_nonneg {q : ℚ} (h : 0 ≤ q) : Binary64.truncate q = ⌊q⌋ := if_pos h

theorem truncate_nonpos {q : ℚ} (h : q ≤ 0) : Binary64.truncate q ≤ 0 := by
  rw [Binary64.truncate]
  split_ifs with hpos
  · rw [le_antisymm h hpos, Int.floor_zero]
  · exact Int.ceil_le.2 (by exact_mod_cast h)

theorem truncate_nonneg_iff {q : ℚ} : 0 ≤ Binary64.truncate q ↔ -1 < q := by
  rw [Binary64.truncate]
  split_ifs with hpos
  · exact iff_of_true (Int.floor_nonneg.2 hpos) (by linarith)
  · rw [← Int.sub_one_lt_iff, Int.lt_ceil]
    norm_num

/-- The numbers that a conversion has a word for. -/
theorem truncate_fits_iff {q : ℚ} : Fits (Binary64.truncate q) ↔ -2 ^ 63 - 1 < q ∧ q < 2 ^ 63 := by
  rw [Fits, Binary64.truncate, i64Max]
  split_ifs with hpos
  · rw [Int.le_sub_one_iff, Int.floor_lt]
    push_cast
    refine and_congr_left fun _ ↦ iff_of_true ?_ (by linarith)
    exact (by norm_num : (-2 ^ 63 : ℤ) ≤ 0).trans (Int.floor_nonneg.2 hpos)
  · have hneg := not_le.1 hpos
    rw [← Int.sub_one_lt_iff, Int.lt_ceil]
    norm_num
    refine fun _ ↦ iff_of_true ?_ (by linarith)
    exact (Int.ceil_le.2 (by push_cast; linarith [not_le.1 hpos])).trans (by norm_num : (0 : ℤ) ≤ _)

theorem toInt64_ofRat {q : ℚ} (h : Fits (Binary64.truncate (Binary64.nearest q))) :
    toInt64 beyond (Binary64.ofRat q) = Binary64.truncate (Binary64.nearest q) := by
  obtain ⟨hlow, hhigh⟩ := h
  have hsmall : |Binary64.nearest q| < 2 ^ 64 := by
    rw [Binary64.truncate, i64Max] at *
    split_ifs at hlow hhigh with hpos
    · rw [abs_of_nonneg hpos]
      have hlt := Int.lt_floor_add_one (Binary64.nearest q)
      have hcast : ((⌊Binary64.nearest q⌋ : ℤ) : ℚ) ≤ 2 ^ 63 - 1 := by exact_mod_cast hhigh
      linarith
    · rw [abs_of_neg (not_le.1 hpos)]
      have hlt := Int.ceil_lt_add_one (Binary64.nearest q)
      have hcast : (-2 ^ 63 : ℚ) ≤ ((⌈Binary64.nearest q⌉ : ℤ) : ℚ) := by exact_mod_cast hlow
      linarith
  have hpow : (2 : ℚ) ^ 64 ≤ 2 ^ 1024 := pow_le_pow_right₀ (by norm_num) (by decide)
  rw [Binary64.ofRat, if_neg (not_le.2 (hsmall.trans_le hpow))]
  exact if_pos ⟨hlow, hhigh⟩

theorem ceiling_eq (k : ℤ) : ∃ c : ℚ, 0 ≤ c ∧ c ≤ backoffMaxMs ∧
    (Binary64.finite backoffMaxMs).min ((Binary64.finite 500).mul (pow2 k)) = .finite c := by
  have hfinite (q : ℚ) (hq : 0 ≤ q) : ∃ c : ℚ, 0 ≤ c ∧ c ≤ backoffMaxMs ∧
      (Binary64.finite backoffMaxMs).min ((Binary64.finite 500).mul (.finite q)) = .finite c := by
    have hmul : 0 ≤ 500 * q := by positivity
    rw [Binary64.mul, Binary64.ofRat]
    split_ifs
    · rw [decide_eq_false (not_lt.2 hmul)]
      exact ⟨backoffMaxMs, Nat.cast_nonneg _, le_rfl, rfl⟩
    · exact ⟨_, le_min (Nat.cast_nonneg _) (Binary64.nearest_nonneg hmul), min_le_left _ _, rfl⟩
  rw [pow2]
  split_ifs
  · refine ⟨backoffMaxMs, Nat.cast_nonneg _, le_rfl, ?_⟩
    rw [Binary64.mul, if_neg (by norm_num)]
    norm_num [Binary64.min]
  · exact hfinite 0 le_rfl
  · exact hfinite _ (by positivity)

theorem backoff_eq (h0 : 0 ≤ random) (h1 : random ≤ 1) (hlow : -2 ^ 63 ≤ now)
    (hhigh : now + backoffMaxMs ≤ i64Max) (beyond : Binary64 → Int64) :
    now ≤ (backoff beyond now attempt random).1 ∧
      (backoff beyond now attempt random).1 ≤ now + backoffMaxMs := by
  obtain ⟨c, hc, hmax, heq⟩ := ceiling_eq (addInt64 (addInt64 attempt 1) (-1))
  obtain ⟨hpos, hle⟩ := nearest_jitter h0 h1 hc hmax
  have htrunc := truncate_of_nonneg hpos
  have hfloor : 0 ≤ ⌊Binary64.nearest (random * c)⌋ := Int.floor_nonneg.2 hpos
  have hceil : ⌊Binary64.nearest (random * c)⌋ ≤ backoffMaxMs := by
    have hle' := (Int.floor_le (Binary64.nearest (random * c))).trans hle
    exact_mod_cast hle'
  have hms : toInt64 beyond ((Binary64.finite random).mul (.finite c)) =
      ⌊Binary64.nearest (random * c)⌋ := by
    rw [Binary64.mul, toInt64_ofRat, htrunc]
    rw [htrunc, Fits]
    rw [i64Max] at *
    rw [backoffMaxMs] at *
    omega
  have hsum : (backoff beyond now attempt random).1 =
      now + ⌊Binary64.nearest (random * c)⌋ := by
    rw [backoff]
    dsimp only
    rw [heq, hms, addInt64_of_fits]
    rw [Fits]
    omega
  rw [hsum]
  omega

/-- Of a number too large for a word, the conversion may give the least of all. -/
theorem toInt64_lost {x : Binary64} (h : ∀ q, x = .finite q → ¬ Fits (Binary64.truncate q)) :
    ∃ beyond, toInt64 beyond x = -2 ^ 63 := by
  refine ⟨fun _ ↦ Int64.minValue, ?_⟩
  cases x with
  | nan => rfl
  | infinity negative => rfl
  | finite q => exact if_neg (h q rfl)

theorem safe_iff (h0 : 0 ≤ random) (h1 : random ≤ 1) (hlow : -2 ^ 63 ≤ now)
    (hhigh : now + backoffMaxMs ≤ i64Max) :
    Safe parse header now attempt random ↔ Meets parse header now := by
  rw [Meets, Safe]
  cases h : header.bind parse with
  | none =>
    have hpause (beyond : Binary64 → Int64) :
        pause beyond parse header now attempt random = backoff beyond now attempt random := by
      rw [pause, h]
    refine iff_of_true (fun beyond ↦ ?_) trivial
    rw [hpause]
    obtain ⟨hafter, hsoon⟩ : now ≤ (backoff beyond now attempt random).1 ∧
        (backoff beyond now attempt random).1 ≤ now + backoffMaxMs :=
      backoff_eq h0 h1 hlow hhigh beyond
    exact ⟨hafter, fun _ ↦ hsoon, fun seconds hs ↦ absurd hs (by simp)⟩
  | some seconds =>
    have hpause (beyond : Binary64 → Int64) :
        (pause beyond parse header now attempt random).1 =
          addInt64 now (retryAfterMs beyond seconds) := by
      rw [pause, h]
    have hlost (hx : ∀ q, seconds.mul (.finite 1000) = .finite q → ¬ Fits (Binary64.truncate q)) :
        ¬ ∀ beyond, now ≤ addInt64 now (retryAfterMs beyond seconds) ∧
          (some seconds = none → addInt64 now (retryAfterMs beyond seconds) ≤ now + backoffMaxMs) ∧
          ∀ x, some seconds = some x →
            addInt64 now (retryAfterMs beyond seconds) = now + retryAfterMs beyond x ∧
            ∀ s, x = .finite s → 0 ≤ s →
              now + ⌊s * 1000⌋ ≤ addInt64 now (retryAfterMs beyond seconds) ∨
                addInt64 now (retryAfterMs beyond seconds) = i64Max := by
      intro hsafe
      obtain ⟨beyond, hms⟩ := toInt64_lost hx
      obtain ⟨hafter, -, hsum⟩ := hsafe beyond
      have hsum' := (hsum seconds rfl).1
      rw [retryAfterMs, hms] at hsum' hafter
      omega
    simp only [hpause]
    cases seconds with
    | nan => exact iff_of_false (hlost fun q hq ↦ by simp [Binary64.mul] at hq) (fun hf ↦ hf)
    | infinity negative =>
      refine iff_of_false (hlost fun q hq ↦ ?_) (fun hf ↦ hf)
      rw [Binary64.mul, if_neg (by norm_num)] at hq
      exact absurd hq (by simp)
    | finite s =>
      dsimp only
      by_cases hfits : Fits (Binary64.truncate (Binary64.nearest (s * 1000)))
      · have hms (beyond : Binary64 → Int64) : retryAfterMs beyond (.finite s) =
            Binary64.truncate (Binary64.nearest (s * 1000)) := toInt64_ofRat hfits
        have hupper := (truncate_fits_iff.1 hfits).2
        simp only [hms]
        constructor
        · intro hsafe
          obtain ⟨hafter, -, hsum⟩ := hsafe fun _ ↦ 0
          obtain ⟨hexact, hlate⟩ := hsum _ rfl
          rw [hms] at hexact
          have hroom := (fits_addInt64 now (Binary64.truncate (Binary64.nearest (s * 1000)))).2
          rw [hexact] at hafter hroom
          refine ⟨truncate_nonneg_iff.1 (by omega), hupper, fun hs ↦ ?_⟩
          have htrunc := truncate_of_nonneg (Binary64.nearest_nonneg (q := s * 1000) (by positivity))
          have hlate' := hlate s rfl hs
          rw [hexact] at hlate'
          rw [Honours, ← htrunc]
          omega
        · rintro ⟨hlower, -, hhonours⟩ beyond
          have hpos := truncate_nonneg_iff.2 hlower
          have hroom : now + Binary64.truncate (Binary64.nearest (s * 1000)) ≤ i64Max := by
            rcases lt_or_ge s 0 with hneg | hs
            · have hzero := truncate_nonpos (Binary64.nearest_nonpos (q := s * 1000) (by linarith))
              have hmax : (0 : ℤ) ≤ backoffMaxMs := Int.natCast_nonneg _
              omega
            · have hle := (hhonours hs).1
              rw [← truncate_of_nonneg (Binary64.nearest_nonneg (by positivity))] at hle
              omega
          have hsum := addInt64_of_fits (a := now)
            (b := Binary64.truncate (Binary64.nearest (s * 1000))) ⟨by omega, hroom⟩
          rw [hsum]
          refine ⟨by omega, fun hnone ↦ absurd hnone (by simp), ?_⟩
          rintro _ ⟨⟩
          refine ⟨(hms beyond).symm ▸ rfl, ?_⟩
          rintro _ ⟨⟩ hs
          have hlate := (hhonours hs).2
          rw [← truncate_of_nonneg (Binary64.nearest_nonneg (by positivity))] at hlate
          omega
      · refine iff_of_false (hlost fun q hq ↦ ?_) fun hmeets ↦ ?_
        · rw [Binary64.mul, Binary64.ofRat] at hq
          split_ifs at hq
          obtain rfl := Binary64.finite.inj hq
          exact hfits
        · exact hfits (truncate_fits_iff.2 ⟨by linarith [hmeets.1], hmeets.2.1⟩)

end Go

/-- Of the headers that are numbers, the arithmetic keeps what is promised exactly for those that
it has room for. -/
theorem retry_pauses_safe_iff (parse : String → Option Binary64) (header : Option String) :
    (∀ (now attempt : ℕ) (jitter : ℚ),
      0 ≤ jitter → jitter ≤ 1 → now + backoffMaxMs ≤ u64Max →
        (Rust.Safe parse header now attempt jitter ↔ Rust.Meets parse header now attempt)) ∧
    ∀ (now attempt : ℤ) (random : ℚ),
      0 ≤ random → random ≤ 1 → -2 ^ 63 ≤ now → now + backoffMaxMs ≤ i64Max →
        (Go.Safe parse header now attempt random ↔ Go.Meets parse header now) :=
  ⟨fun _ _ _ h0 h1 hnow ↦ Rust.safe_iff h0 h1 hnow,
    fun _ _ _ h0 h1 hlow hhigh ↦ Go.safe_iff h0 h1 hlow hhigh⟩

section Samples

/-- What both languages read in three texts. -/
def sampleParse : String → Option Binary64
  | "30" => some (.finite 30)
  | "-1" => some (.finite (-1))
  | "inf" => some (.infinity false)
  | _ => none

theorem retry_pauses_safe_sample :
    (Rust.Safe sampleParse (some "30") 1785542400000 0 (1 / 2) ↔
      Rust.Meets sampleParse (some "30") 1785542400000 0) ∧
    (Go.Safe sampleParse none 1785542400000 0 (1 / 2) ↔
      Go.Meets sampleParse none 1785542400000) :=
  ⟨(retry_pauses_safe_iff sampleParse (some "30")).1 1785542400000 0 (1 / 2) (by norm_num)
      (by norm_num) (by decide),
    (retry_pauses_safe_iff sampleParse none).2 1785542400000 0 (1 / 2) (by norm_num) (by norm_num)
      (by norm_num) (by decide)⟩

/-- The sum with an infinite wait does not fit in Rust, and a wait of less than nothing ends in Go
before the reply. -/
theorem retry_pauses_lost :
    Rust.pause sampleParse (some "inf") 1785542400000 0 (1 / 2) = none ∧
    (∀ beyond, (Go.pause beyond sampleParse (some "-1") 1785542400000 0 (1 / 2)).1 <
      1785542400000) ∧
    ∃ beyond, (Go.pause beyond sampleParse (some "inf") 1785542400000 0 (1 / 2)).1 < 0 := by
  refine ⟨by decide +kernel, fun beyond ↦ ?_, fun _ ↦ Int64.minValue, by decide +kernel⟩
  have hms : Go.retryAfterMs beyond (.finite (-1)) = -1000 := by
    have htrunc : Binary64.truncate (Binary64.nearest (-1 * 1000)) = -1000 := by decide +kernel
    refine (Go.toInt64_ofRat ?_).trans htrunc
    rw [htrunc]
    norm_num [Go.Fits, i64Max]
  change Go.addInt64 1785542400000 (Go.retryAfterMs beyond (.finite (-1))) < 1785542400000
  rw [hms]
  decide

end Samples

end Counted.Sdk
