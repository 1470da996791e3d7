import Counted.Kernel.JsString

namespace Counted

def digit (d : ℕ) : UInt16 := 48 + d.toUInt16

def zeros (n : ℕ) : JsString := List.replicate n 48

/-- A whole number as a template literal writes it. -/
def natText (n : ℕ) : JsString := if n = 0 then zeros 1 else (Nat.digits 10 n).reverse.map digit

/-- A finite JavaScript number, held as the shortest decimal that denotes it. The mantissa ends
in a nonzero digit, so equal numbers are equal values; `-0` is `0`, from which `===` and
`String` do not tell it apart. -/
@[ext]
structure Decimal where
  mant : ℤ
  exp : ℤ
  normal : mant % 10 ≠ 0 ∨ mant = 0 ∧ exp = 0
  deriving DecidableEq

namespace Decimal

def toRat (d : Decimal) : ℚ := d.mant * (10 : ℚ) ^ d.exp

/-- Moves the trailing zeros of a mantissa into the exponent. -/
def strip : ℕ → ℤ → ℤ → ℤ × ℤ
  | 0, m, e => (m, e)
  | n + 1, m, e => if m % 10 = 0 then strip n (m / 10) (e + 1) else (m, e)

theorem strip_value (n : ℕ) (m e : ℤ) :
    ((strip n m e).1 : ℚ) * (10 : ℚ) ^ (strip n m e).2 = m * (10 : ℚ) ^ e := by
  induction n generalizing m e with
  | zero => rfl
  | succ n ih =>
    by_cases h : m % 10 = 0
    · have hm : (m : ℚ) = 10 * (m / 10 : ℤ) := by exact_mod_cast (by omega : m = 10 * (m / 10))
      rw [strip, if_pos h, ih, hm, zpow_add_one₀ (by norm_num)]
      ring
    · rw [strip, if_neg h]

theorem strip_normal (n : ℕ) (m e : ℤ) (hm : m ≠ 0) (hn : m.natAbs < 10 ^ n) :
    (strip n m e).1 % 10 ≠ 0 := by
  induction n generalizing m e with
  | zero => omega
  | succ n ih =>
    by_cases h : m % 10 = 0
    · rw [strip, if_pos h]
      exact ih (m / 10) (e + 1) (by omega) (by rw [pow_succ] at hn; omega)
    · rwa [strip, if_neg h]

/-- The number `m · 10 ^ e`. -/
def scaled (m e : ℤ) : Decimal :=
  if hm : m = 0 then ⟨0, 0, .inr ⟨rfl, rfl⟩⟩
  else ⟨(strip (m.natAbs.log2 + 1) m e).1, (strip (m.natAbs.log2 + 1) m e).2, .inl <|
    strip_normal _ m e hm <| Nat.lt_log2_self.trans_le (Nat.pow_le_pow_left (by norm_num) _)⟩

theorem scaled_toRat (m e : ℤ) : (scaled m e).toRat = m * (10 : ℚ) ^ e := by
  by_cases hm : m = 0
  · simp [scaled, toRat, hm]
  · simp only [scaled, hm, dite_false, toRat]
    exact strip_value _ m e

theorem strip_exp_le (n : ℕ) (m e : ℤ) : e ≤ (strip n m e).2 := by
  induction n generalizing m e with
  | zero => exact le_rfl
  | succ n ih =>
    rw [strip]
    split_ifs
    · exact (le_add_of_nonneg_right zero_le_one).trans (ih _ _)
    · exact le_rfl

theorem scaled_exp_nonneg (m : ℤ) : 0 ≤ (scaled m 0).exp := by
  by_cases hm : m = 0
  · simp [scaled, hm]
  · simp only [scaled, hm, dite_false]
    exact strip_exp_le _ m 0

instance : Coe ℤ Decimal := ⟨fun m ↦ scaled m 0⟩

theorem toRat_injective : Function.Injective toRat := by
  have key (a b : Decimal) (h : a.toRat = b.toRat) (he : a.exp ≤ b.exp) : a = b := by
    obtain ⟨n, hn⟩ : ∃ n : ℕ, b.exp = a.exp + n := ⟨(b.exp - a.exp).toNat, by omega⟩
    have hm : a.mant = b.mant * 10 ^ n := by
      have hp : (10 : ℚ) ^ a.exp ≠ 0 := zpow_ne_zero _ (by norm_num)
      simp only [toRat, hn, zpow_add₀ (by norm_num : (10 : ℚ) ≠ 0), zpow_natCast] at h
      exact_mod_cast mul_right_cancel₀ hp (by linarith : (a.mant : ℚ) * (10 : ℚ) ^ a.exp =
        (b.mant * 10 ^ n : ℚ) * (10 : ℚ) ^ a.exp)
    cases n with
    | zero => exact Decimal.ext (by simpa using hm) (by simpa using hn.symm)
    | succ n =>
      have hz : a.mant % 10 = 0 := by rw [hm, pow_succ, ← mul_assoc, Int.mul_emod_left]
      obtain ⟨ha, hae⟩ := a.normal.resolve_left (fun h ↦ h hz)
      have hb : b.mant = 0 := by
        rcases mul_eq_zero.1 (hm.symm.trans ha) with hb | hb
        · exact hb
        · exact absurd hb (by positivity)
      have hbe := (b.normal.resolve_left (by simp [hb])).2
      exact Decimal.ext (by rw [ha, hb]) (by rw [hae, hbe])
  intro a b h
  rcases le_total a.exp b.exp with he | he
  · exact key a b h he
  · exact (key b a h.symm he).symm

/-- Both mantissas at the smaller of the two exponents. -/
def aligned (a b : Decimal) : ℤ × ℤ :=
  (a.mant * 10 ^ (a.exp - min a.exp b.exp).toNat, b.mant * 10 ^ (b.exp - min a.exp b.exp).toNat)

def lt (a b : Decimal) : Bool := (aligned a b).1 < (aligned a b).2

def sub (a b : Decimal) : Decimal := scaled ((aligned a b).1 - (aligned a b).2) (min a.exp b.exp)

theorem aligned_value (a b : Decimal) :
    ((aligned a b).1 : ℚ) * (10 : ℚ) ^ min a.exp b.exp = a.toRat ∧
      ((aligned a b).2 : ℚ) * (10 : ℚ) ^ min a.exp b.exp = b.toRat := by
  have h (c : Decimal) (hc : min a.exp b.exp ≤ c.exp) :
      ((c.mant * 10 ^ (c.exp - min a.exp b.exp).toNat : ℤ) : ℚ) * (10 : ℚ) ^ min a.exp b.exp =
        c.toRat := by
    have he : ((c.exp - min a.exp b.exp).toNat : ℤ) + min a.exp b.exp = c.exp := by omega
    rw [toRat, Int.cast_mul, Int.cast_pow, Int.cast_ofNat, ← zpow_natCast, mul_assoc,
      ← zpow_add₀ (by norm_num), he]
  exact ⟨h a (min_le_left _ _), h b (min_le_right _ _)⟩

theorem lt_iff (a b : Decimal) : lt a b = true ↔ a.toRat < b.toRat := by
  obtain ⟨ha, hb⟩ := aligned_value a b
  rw [← ha, ← hb, mul_lt_mul_iff_left₀ (zpow_pos (by norm_num) _), lt, decide_eq_true_eq]
  exact Int.cast_lt.symm

theorem sub_toRat (a b : Decimal) : (sub a b).toRat = a.toRat - b.toRat := by
  obtain ⟨ha, hb⟩ := aligned_value a b
  rw [sub, scaled_toRat, ← ha, ← hb, Int.cast_sub]
  ring

/-- `Number::toString` of a positive number with significant digits `s` and point position `n`. -/
def layout (s : JsString) (n : ℤ) : JsString :=
  if s.length ≤ n ∧ n ≤ 21 then s ++ zeros (n - s.length).toNat
  else if 0 < n ∧ n ≤ 21 then s.take n.toNat ++ js "." ++ s.drop n.toNat
  else if -6 < n ∧ n ≤ 0 then js "0." ++ zeros (-n).toNat ++ s
  else
    let e := (if 0 < n then js "e+" else js "e-") ++ natText (n - 1).natAbs
    if s.length = 1 then s ++ e else s.take 1 ++ js "." ++ s.drop 1 ++ e

def toJs (d : Decimal) : JsString :=
  let s := natText d.mant.natAbs
  if d.mant = 0 then s
  else (if d.mant < 0 then js "-" else []) ++ layout s (d.exp + s.length)

end Decimal

/-- A JavaScript number. -/
inductive JsNumber
  | finite (d : Decimal)
  | infinity (negative : Bool)
  | nan
  deriving DecidableEq

namespace JsNumber

/-- `===`: reflexive but for `NaN`. -/
def strictEq (a b : JsNumber) : Bool := a != .nan && a == b

def lt : JsNumber → JsNumber → Bool
  | .finite a, .finite b => a.lt b
  | .infinity n, .finite _ => n
  | .finite _, .infinity n => !n
  | .infinity n, .infinity m => n && !m
  | _, _ => false

def le (a b : JsNumber) : Bool := lt a b || strictEq a b

def isInteger : JsNumber → Bool
  | .finite d => 0 ≤ d.exp
  | _ => false

def toJs : JsNumber → JsString
  | .finite d => d.toJs
  | .infinity false => js "Infinity"
  | .infinity true => js "-Infinity"
  | .nan => js "NaN"

instance : Coe ℤ JsNumber := ⟨fun m ↦ .finite (m : Decimal)⟩

end JsNumber

/-- What is taken from the engine: the formats `Date.parse` reads beyond ISO-8601, the locale's
collation, `+` on doubles with its rounding, and the text of a function of `Object.prototype`. -/
structure Runtime where
  dateParse : JsString → Option ℤ
  localeCompare : JsString → JsString → Ordering
  add : JsNumber → JsNumber → JsNumber
  functionText : JsString → JsString

example : JsNumber.toJs ((1700000000000 : ℤ) : JsNumber) = js "1700000000000" := by decide
example : (Decimal.scaled (-25) (-2)).toJs = js "-0.25" := by decide
example : (Decimal.scaled 15 21).toJs = js "1.5e+22" := by decide

end Counted
