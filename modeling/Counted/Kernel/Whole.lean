import Counted.Kernel.NumberText

namespace Counted

namespace Decimal

def plus (a b : Decimal) : Decimal := scaled ((aligned a b).1 + (aligned a b).2) (min a.exp b.exp)

theorem plus_toRat (a b : Decimal) : (plus a b).toRat = a.toRat + b.toRat := by
  obtain ⟨ha, hb⟩ := aligned_value a b
  rw [plus, scaled_toRat, ← ha, ← hb, Int.cast_add]
  ring

theorem intCast_plus (a b : ℤ) : plus (a : Decimal) (b : Decimal) = ((a + b : ℤ) : Decimal) := by
  apply toRat_injective
  rw [plus_toRat, intCast_toRat, intCast_toRat, intCast_toRat, Int.cast_add]

end Decimal

namespace JsNumber

/-- The whole number that a number is. -/
def whole : JsNumber → Option ℤ
  | .finite d => if 0 ≤ d.exp then some (d.mant * 10 ^ d.exp.toNat) else none
  | _ => none

/-- `+` of whole numbers, which is exact up to 2^53. -/
def plus : JsNumber → JsNumber → JsNumber
  | .finite a, .finite b => .finite (a.plus b)
  | _, _ => .nan

@[simp] theorem intCast_plus (a b : ℤ) : plus (a : JsNumber) (b : JsNumber) = ((a + b : ℤ) : JsNumber) :=
  congrArg JsNumber.finite (Decimal.intCast_plus a b)

theorem intCast_inj {a b : ℤ} : (a : JsNumber) = (b : JsNumber) ↔ a = b := intCast_injective.eq_iff

theorem intCast_le {a b : ℤ} : le (a : JsNumber) (b : JsNumber) = decide (a ≤ b) := by
  have hstrict : strictEq (a : JsNumber) (b : JsNumber) = decide (a = b) := by
    have hn : ((a : JsNumber) != .nan) = true := rfl
    rw [strictEq, hn, Bool.true_and, beq_eq_decide]
    exact decide_eq_decide.2 intCast_inj
  rw [le, intCast_lt, hstrict, ← Bool.decide_or]
  exact decide_eq_decide.2 le_iff_lt_or_eq.symm

theorem whole_intCast (m : ℤ) : whole (m : JsNumber) = some m := by
  have he := Decimal.scaled_exp_nonneg m
  have hr := Decimal.intCast_toRat m
  have hz : ((m : Decimal).exp.toNat : ℤ) = (m : Decimal).exp := Int.toNat_of_nonneg he
  rw [Decimal.toRat, ← hz, zpow_natCast] at hr
  rw [whole, if_pos he]
  exact congrArg some (by exact_mod_cast hr)

theorem whole_isSome (n : JsNumber) : n.whole.isSome = n.isInteger := by
  cases n with
  | finite d =>
    rw [whole, isInteger]
    split_ifs with h
    · exact (decide_eq_true h).symm
    · exact (decide_eq_false h).symm
  | infinity | nan => rfl

theorem finite_le {a b : Decimal} :
    le (.finite a) (.finite b) = true ↔ a.toRat ≤ b.toRat := by
  have hstrict : strictEq (.finite a) (.finite b) = true ↔ a.toRat = b.toRat := by
    simp [strictEq, Decimal.toRat_injective.eq_iff]
  rw [le, Bool.or_eq_true, hstrict, le_iff_lt_or_eq]
  exact or_congr_left (Decimal.lt_iff a b)

/-- Numbers other than `NaN` are in order. -/
theorem le_of_lt_false {a b : JsNumber} (ha : a ≠ .nan) (hb : b ≠ .nan) (h : a.lt b = false) :
    b.le a = true := by
  cases a with
  | nan => exact absurd rfl ha
  | infinity n =>
    cases b with
    | nan => exact absurd rfl hb
    | infinity m => cases n <;> cases m <;> first | rfl | cases h
    | finite b => cases n <;> first | rfl | cases h
  | finite a =>
    cases b with
    | nan => exact absurd rfl hb
    | infinity m => cases m <;> first | rfl | cases h
    | finite b =>
      rw [finite_le, ← not_lt, ← Decimal.lt_iff]
      exact Bool.eq_false_iff.1 h

theorem lt_of_lt_of_le {a : JsNumber} {b : Decimal} {c : JsNumber} (hab : a.lt (.finite b) = true)
    (hbc : le (.finite b) c = true) : a.lt c = true := by
  cases c with
  | nan => cases hbc
  | infinity m =>
    cases m with
    | true => cases hbc
    | false => cases a with
      | nan => cases hab
      | infinity n => cases n <;> first | rfl | cases hab
      | finite a => rfl
  | finite c => cases a with
    | nan => cases hab
    | infinity n => exact hab
    | finite a =>
      rw [finite_le] at hbc
      exact (Decimal.lt_iff a c).2 (((Decimal.lt_iff a b).1 hab).trans_le hbc)

theorem le_trans_finite {a b : Decimal} {c : JsNumber} (hab : le (.finite a) (.finite b) = true)
    (hbc : le (.finite b) c = true) : le (.finite a) c = true := by
  cases c with
  | nan => cases hbc
  | infinity m => cases m <;> first | rfl | cases hbc
  | finite c => exact finite_le.2 ((finite_le.1 hab).trans (finite_le.1 hbc))

end JsNumber

end Counted
