import Mathlib

namespace Counted.Foundations

/-- The nearest integer, and the even one of two that are equally near. -/
def halfEven (q : ℚ) : ℤ :=
  if Int.fract q < 1 / 2 then ⌊q⌋
  else if 1 / 2 < Int.fract q then ⌊q⌋ + 1
  else if ⌊q⌋ % 2 = 0 then ⌊q⌋ else ⌊q⌋ + 1

theorem halfEven_le {q : ℚ} {m : ℤ} (h : q ≤ m) : halfEven q ≤ m := by
  have hfloor : ⌊q⌋ ≤ m := by exact_mod_cast (Int.floor_le q).trans h
  by_cases hlt : ⌊q⌋ < m
  · unfold halfEven
    split_ifs <;> omega
  · have heq : ⌊q⌋ = m := le_antisymm hfloor (not_lt.1 hlt)
    have hfract : Int.fract q < 1 / 2 := by
      rw [Int.fract, heq]
      linarith
    rw [halfEven, if_pos hfract]
    exact hfloor

theorem le_halfEven {q : ℚ} {m : ℤ} (h : (m : ℚ) ≤ q) : m ≤ halfEven q := by
  have hfloor : m ≤ ⌊q⌋ := Int.le_floor.2 h
  unfold halfEven
  split_ifs <;> omega

namespace Binary64

/-- The exponent of the last place of a double of this size. -/
def lastPlace (q : ℚ) : ℤ := max (Int.log 2 |q| - 52) (-1074)

/-- Rounding to 53 bits, as if the exponent had no upper end. -/
def nearest (q : ℚ) : ℚ := halfEven (q / 2 ^ lastPlace q) * 2 ^ lastPlace q

variable {q : ℚ} {n : ℕ}

theorem ulp_pos (q : ℚ) : (0 : ℚ) < 2 ^ lastPlace q := by positivity

theorem nearest_le {m : ℤ} (h : q ≤ m * 2 ^ lastPlace q) : nearest q ≤ m * 2 ^ lastPlace q := by
  have hdiv : q / 2 ^ lastPlace q ≤ m := (div_le_iff₀ (ulp_pos q)).2 h
  have hround : ((halfEven (q / 2 ^ lastPlace q) : ℤ) : ℚ) ≤ m := by exact_mod_cast halfEven_le hdiv
  exact mul_le_mul_of_nonneg_right hround (ulp_pos q).le

theorem le_nearest {m : ℤ} (h : m * 2 ^ lastPlace q ≤ q) : m * 2 ^ lastPlace q ≤ nearest q := by
  have hdiv : (m : ℚ) ≤ q / 2 ^ lastPlace q := (le_div_iff₀ (ulp_pos q)).2 h
  have hround : (m : ℚ) ≤ (halfEven (q / 2 ^ lastPlace q) : ℤ) := by exact_mod_cast le_halfEven hdiv
  exact mul_le_mul_of_nonneg_right hround (ulp_pos q).le

theorem nearest_nonneg (h : 0 ≤ q) : 0 ≤ nearest q := by
  have hzero := le_nearest (q := q) (m := 0) (by simpa using h)
  simpa using hzero

theorem nearest_nonpos (h : q ≤ 0) : nearest q ≤ 0 := by
  have hzero := nearest_le (q := q) (m := 0) (by simpa using h)
  simpa using hzero

/-- Where the last place is at most the ones, every whole number is a multiple of it. -/
theorem natCast_eq_mul (h : lastPlace q ≤ 0) :
    (n : ℚ) = ((n * 2 ^ (-lastPlace q).toNat : ℤ) : ℚ) * 2 ^ lastPlace q := by
  have hpow : ((2 : ℚ) ^ (-lastPlace q).toNat) = 2 ^ (-lastPlace q) := by
    rw [← zpow_natCast, Int.toNat_of_nonneg (by omega)]
  push_cast
  rw [hpow, mul_assoc, ← zpow_add₀ two_ne_zero, neg_add_cancel, zpow_zero, mul_one]

/-- Past the ones, a number has 53 digits before the last place. -/
theorem pow_le_of_lastPlace (h : 0 < lastPlace q) (hq : 0 ≤ q) :
    (2 : ℚ) ^ (52 : ℕ) * 2 ^ lastPlace q ≤ q := by
  have hlog : lastPlace q = Int.log 2 |q| - 52 := by
    rcases max_choice (Int.log 2 |q| - 52) (-1074) with hmax | hmax
    · exact hmax
    · rw [lastPlace, hmax] at h
      omega
  have hpos : 0 < q := by
    refine lt_of_le_of_ne hq fun hzero ↦ ?_
    rw [← hzero, lastPlace, abs_zero, Int.log_zero_right] at h
    omega
  have habs : |q| = q := abs_of_pos hpos
  have hle := Int.zpow_log_le_self (b := 2) (by norm_num) hpos
  rw [hlog, habs, ← zpow_natCast, ← zpow_add₀ two_ne_zero]
  simpa using hle

/-- A whole number of at most 53 bits bounds what the numbers below it are rounded to. -/
theorem nearest_le_natCast (hn : n ≤ 2 ^ 53) (hq : 0 ≤ q) (h : q ≤ n) : nearest q ≤ n := by
  rcases le_or_gt (lastPlace q) 0 with hplace | hplace
  · have heq := natCast_eq_mul (n := n) hplace
    rw [heq] at h ⊢
    exact nearest_le h
  · have hpow := pow_le_of_lastPlace hplace hq
    have hone : (1 : ℤ) ≤ lastPlace q := hplace
    have htwo : (2 : ℚ) ^ (1 : ℤ) ≤ 2 ^ lastPlace q := zpow_le_zpow_right₀ (by norm_num) hone
    have hbig : (n : ℚ) ≤ 2 ^ 53 := by exact_mod_cast hn
    have heq : (2 : ℚ) ^ lastPlace q = 2 := by
      rw [zpow_one] at htwo
      refine le_antisymm ?_ htwo
      have hle : (2 : ℚ) ^ (52 : ℕ) * 2 ^ lastPlace q ≤ 2 ^ 53 := hpow.trans (h.trans hbig)
      norm_num at hle
      linarith
    have hn' : (n : ℚ) = ((2 ^ 52 : ℤ) : ℚ) * 2 ^ lastPlace q := by
      rw [heq] at hpow ⊢
      push_cast
      linarith [hpow.trans h]
    rw [hn'] at h ⊢
    exact nearest_le h

theorem natCast_le_nearest (hn : n ≤ 2 ^ 53) (h : (n : ℚ) ≤ q) : (n : ℚ) ≤ nearest q := by
  have hq : 0 ≤ q := (Nat.cast_nonneg n).trans h
  rcases le_or_gt (lastPlace q) 0 with hplace | hplace
  · have heq := natCast_eq_mul (n := n) hplace
    rw [heq] at h ⊢
    exact le_nearest h
  · have hpow := pow_le_of_lastPlace hplace hq
    have hbound := le_nearest (q := q) (m := 2 ^ 52) (by push_cast; exact hpow)
    have htwo : (2 : ℚ) ^ (1 : ℤ) ≤ 2 ^ lastPlace q := zpow_le_zpow_right₀ (by norm_num) hplace
    have hbig : (n : ℚ) ≤ 2 ^ 53 := by exact_mod_cast hn
    push_cast at hbound
    rw [zpow_one] at htwo
    calc (n : ℚ) ≤ 2 ^ 52 * 2 := by linarith
      _ ≤ 2 ^ 52 * 2 ^ lastPlace q := by gcongr
      _ ≤ nearest q := hbound

/-- Nothing whole is lost where the ones have a place. -/
theorem floor_le_floor_nearest (hq : 0 ≤ q) (h : q ≤ 2 ^ 53) : ⌊q⌋ ≤ ⌊nearest q⌋ := by
  have hfloor : 0 ≤ ⌊q⌋ := Int.floor_nonneg.2 hq
  obtain ⟨n, hn⟩ := Int.eq_ofNat_of_zero_le hfloor
  have hle : (n : ℚ) ≤ q := by
    have := Int.floor_le q
    rwa [hn] at this
  have hsmall : n ≤ 2 ^ 53 := by exact_mod_cast hle.trans h
  rw [hn]
  exact Int.le_floor.2 (natCast_le_nearest hsmall hle)

end Binary64

/-- A double, with its zeros taken as one. -/
inductive Binary64
  | nan
  | infinity (negative : Bool)
  | finite (q : ℚ)

namespace Binary64

def ofRat (q : ℚ) : Binary64 :=
  if 2 ^ 1024 ≤ |nearest q| then .infinity (q < 0) else .finite (nearest q)

def mul : Binary64 → Binary64 → Binary64
  | .nan, _ | _, .nan => .nan
  | .infinity s, .infinity t => .infinity (s ^^ t)
  | .infinity s, .finite q | .finite q, .infinity s =>
    if q = 0 then .nan else .infinity (s ^^ decide (q < 0))
  | .finite p, .finite q => ofRat (p * q)

/-- The lesser of two, where neither is a `nan`. -/
def min : Binary64 → Binary64 → Binary64
  | .nan, _ | _, .nan => .nan
  | .infinity true, _ | _, .infinity true => .infinity true
  | .infinity false, x | x, .infinity false => x
  | .finite p, .finite q => .finite (Min.min p q)

/-- Toward zero. -/
def truncate (q : ℚ) : ℤ := if 0 ≤ q then ⌊q⌋ else ⌈q⌉

end Binary64

end Counted.Foundations
