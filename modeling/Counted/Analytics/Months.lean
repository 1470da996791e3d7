import Counted.Analytics.Window

namespace Counted.Analytics

open Calendar

theorem toInteger_intCast (t : ℤ) : toInteger (t : JsNumber) = some t := by
  have hexp := Decimal.scaled_exp_nonneg t
  have hval := Decimal.intCast_toRat t
  have ht : truncate (t : Decimal) = t := by
    rw [truncate, if_pos hexp]
    rw [Decimal.toRat] at hval
    have hz : ((t : Decimal).exp.toNat : ℤ) = (t : Decimal).exp := by omega
    rw [← hz, zpow_natCast] at hval
    exact_mod_cast hval
  exact congrArg some ht

/-- The month of an instant in the row of all months. -/
def monthIndex (t : ℤ) : ℤ := 12 * yearFromDay (t / dayMs) + monthFromDay (t / dayMs)

/-- The day of the month, from 1 on. -/
def dayOfMonth (t : ℤ) : ℤ := t / dayMs - monthEdge (monthIndex t) + 1

def daysIn (i : ℤ) : ℤ := monthEdge (i + 1) - monthEdge i

/-- The same time of day, a number of months earlier, on the last day of a month that is too
short. -/
structure MonthsBack (n : ℕ) (now t : ℤ) : Prop where
  month : monthIndex t = monthIndex now - n
  day : dayOfMonth t = min (dayOfMonth now) (daysIn (monthIndex t))
  time : t % dayMs = now % dayMs

theorem daysIn_bounds (i : ℤ) : 28 ≤ daysIn i ∧ daysIn i ≤ 31 := by
  obtain ⟨y, m, hm, rfl⟩ : ∃ (y : ℤ) (m : ℕ), m < 12 ∧ i = 12 * y + m :=
    ⟨i / 12, (i % 12).toNat, by omega, by omega⟩
  have hl := leapDay_cases y
  rw [daysIn, monthEdge_succ y hm, monthEdge_eq y hm]
  interval_cases m
  all_goals
    simp [monthStart, daysBefore]
    try omega

theorem monthEdge_back (i : ℤ) (n : ℕ) :
    28 * n ≤ monthEdge i - monthEdge (i - n) ∧ monthEdge i - monthEdge (i - n) ≤ 31 * n := by
  induction n with
  | zero => simp
  | succ n ih =>
    have hstep := daysIn_bounds (i - (n + 1 : ℕ))
    have hnext : i - (n + 1 : ℕ) + 1 = i - n := by push_cast; ring
    rw [daysIn, hnext] at hstep
    push_cast at *
    omega

theorem monthIndex_spec (t : ℤ) :
    monthEdge (monthIndex t) ≤ t / dayMs ∧ t / dayMs < monthEdge (monthIndex t + 1) := by
  obtain ⟨hm, hlo, hhi⟩ := monthFromDay_spec (t / dayMs)
  rw [monthIndex, monthEdge_eq _ hm, monthEdge_succ _ hm]
  exact ⟨hlo, hhi⟩

theorem dayOfMonth_bounds (t : ℤ) : 1 ≤ dayOfMonth t ∧ dayOfMonth t ≤ 31 := by
  have hspec := monthIndex_spec t
  have hdays := daysIn_bounds (monthIndex t)
  rw [daysIn] at hdays
  rw [dayOfMonth]
  omega

theorem monthIndex_of_day {day r i : ℤ} (hr : 0 ≤ r) (hr' : r < dayMs) (hlo : monthEdge i ≤ day)
    (hhi : day < monthEdge (i + 1)) : monthIndex (day * dayMs + r) = i := by
  have hday : (day * dayMs + r) / dayMs = day := by
    simp only [dayMs] at *
    omega
  have hspec := monthIndex_spec (day * dayMs + r)
  rw [hday] at hspec
  have hmono := monthEdge_strictMono
  have h1 := hmono.lt_iff_lt.1 (hlo.trans_lt hspec.2)
  have h2 := hmono.lt_iff_lt.1 (hspec.1.trans_lt hhi)
  omega

/-- Only the leap day of a year tells its months from those of another. -/
theorem daysInMonth_eq {y : ℤ} {m : ℕ} (hm : m < 12) (hy : y ≠ 0) :
    daysInMonth y m = daysIn (12 * y + m) := by
  rw [daysIn, monthEdge_succ y hm, monthEdge_eq y hm, daysInMonth]
  by_cases h : 0 ≤ y ∧ y ≤ 99
  · have hleap : leapDay (1900 + y) = leapDay y := by
      simp only [leapDay, yearStart]
      omega
    simp only [if_pos h]
    simp only [monthStart, hleap]
    ring
  · simp only [if_neg h]

theorem daysInMonth_ge (y : ℤ) {m : ℕ} (hm : m < 12) : 28 ≤ daysInMonth y m := by
  obtain ⟨y', hy'⟩ : ∃ y', daysInMonth y m = monthStart y' (m + 1) - monthStart y' m := ⟨_, rfl⟩
  have hdays := (daysIn_bounds (12 * y' + m)).1
  rwa [daysIn, monthEdge_succ y' hm, monthEdge_eq y' hm, ← hy'] at hdays

section

variable {ar : Arithmetic} {now t : ℤ} {amount : JsNumber}

/-- The year and the month that a number of months from the start of a year is in. -/
theorem month_of_months (year k : ℤ) :
    (k % 12).toNat < 12 ∧ 12 * (year + k / 12) + ((k % 12).toNat : ℤ) = 12 * year + k := by omega

theorem minusMonths_some (h : minusMonths ar now amount = some t) :
    ∃ k, toInteger (ar.sub ((monthFromDay (now / dayMs) : ℤ) : JsNumber) amount) = some k ∧
      t = (monthEdge (12 * yearFromDay (now / dayMs) + k) + (min (dayOfMonth now)
        (daysInMonth (yearFromDay (now / dayMs) + k / 12) (k % 12).toNat) - 1)) * dayMs +
          now % dayMs ∧ |t| ≤ maxTime := by
  simp only [minusMonths, Option.bind_eq_bind, Option.bind_eq_some_iff] at h
  obtain ⟨_, -, k, hk, start, hstart, ht⟩ := h
  refine ⟨k, hk, ?_, ?_⟩
  · obtain ⟨hm, hindex⟩ := month_of_months (yearFromDay (now / dayMs)) k
    obtain ⟨hm', -, -⟩ := monthFromDay_spec (now / dayMs)
    rw [clip] at hstart ht
    split_ifs at hstart ht with h1 h2
    cases hstart
    cases ht
    rw [← hindex, monthEdge_eq _ hm, dayOfMonth, monthIndex, monthEdge_eq _ hm']
    ring
  · rw [clip] at ht
    split_ifs at ht with h1
    cases ht
    exact h1

/-- In a year that `Date.UTC` reads as it stands, the day is right. -/
theorem monthsBack_of_some {n : ℕ} {k : ℤ} (hk : k = monthFromDay (now / dayMs) - n)
    (hyear : (monthIndex now - n) / 12 ≠ 0)
    (ht : t = (monthEdge (12 * yearFromDay (now / dayMs) + k) + (min (dayOfMonth now)
      (daysInMonth (yearFromDay (now / dayMs) + k / 12) (k % 12).toNat) - 1)) * dayMs +
        now % dayMs) : MonthsBack n now t := by
  obtain ⟨hm, hindex⟩ := month_of_months (yearFromDay (now / dayMs)) k
  have htarget : 12 * yearFromDay (now / dayMs) + k = monthIndex now - n := by
    rw [monthIndex, hk]
    ring
  have hyear' : yearFromDay (now / dayMs) + k / 12 ≠ 0 := by omega
  rw [daysInMonth_eq hm hyear', hindex, htarget] at ht
  have hr : 0 ≤ now % dayMs ∧ now % dayMs < dayMs :=
    ⟨Int.emod_nonneg _ (by decide), Int.emod_lt_of_pos _ (by decide)⟩
  have hday := dayOfMonth_bounds now
  have hdays := daysIn_bounds (monthIndex now - n)
  obtain ⟨d, hd⟩ : ∃ d, d = min (dayOfMonth now) (daysIn (monthIndex now - n)) := ⟨_, rfl⟩
  rw [← hd] at ht
  have hbounds : 1 ≤ d ∧ d ≤ daysIn (monthIndex now - n) := by omega
  have hmonth : monthIndex t = monthIndex now - n := by
    rw [ht]
    refine monthIndex_of_day hr.1 hr.2 (by omega) ?_
    rw [daysIn] at hbounds
    omega
  have hquotient : t / dayMs = monthEdge (monthIndex now - n) + (d - 1) := by
    rw [ht]
    simp only [dayMs] at *
    omega
  refine ⟨hmonth, ?_, ?_⟩
  · rw [hmonth, ← hd, dayOfMonth, hquotient, hmonth]
    ring
  · rw [ht]
    simp only [dayMs] at *
    omega

/-- Even where a year is misread a window is not far from its number of months. -/
theorem months_apart {n : ℕ} {k : ℤ} (hk : k = monthFromDay (now / dayMs) - n)
    (ht : t = (monthEdge (12 * yearFromDay (now / dayMs) + k) + (min (dayOfMonth now)
      (daysInMonth (yearFromDay (now / dayMs) + k / 12) (k % 12).toNat) - 1)) * dayMs +
        now % dayMs) : 28 * n * dayMs ≤ now - t ∧ now - t ≤ (31 * n + 3) * dayMs := by
  obtain ⟨hm, -⟩ := month_of_months (yearFromDay (now / dayMs)) k
  have htarget : 12 * yearFromDay (now / dayMs) + k = monthIndex now - n := by
    rw [monthIndex, hk]
    ring
  rw [htarget] at ht
  have hback := monthEdge_back (monthIndex now) n
  have hlength := daysInMonth_ge (yearFromDay (now / dayMs) + k / 12) hm
  have hday := dayOfMonth_bounds now
  have hdom : dayOfMonth now = now / dayMs - monthEdge (monthIndex now) + 1 := rfl
  generalize daysInMonth (yearFromDay (now / dayMs) + k / 12) (k % 12).toNat = d at *
  have hmin : dayOfMonth now - 3 ≤ min (dayOfMonth now) d ∧ min (dayOfMonth now) d ≤ dayOfMonth now := by
    omega
  generalize min (dayOfMonth now) d = c at *
  rw [ht]
  simp only [dayMs] at *
  omega

/-- Some months are between 28 and 31 days each, the clamping included. -/
theorem MonthsBack.length {n : ℕ} (h : MonthsBack n now t) (hn : 0 < n) :
    28 * n * dayMs ≤ now - t ∧ now - t ≤ 31 * n * dayMs := by
  obtain ⟨p, rfl⟩ : ∃ p, n = p + 1 := ⟨n - 1, by omega⟩
  have hall := (monthEdge_back (monthIndex now) (p + 1)).1
  have hlater := (monthEdge_back (monthIndex now) p).2
  have hfirst : monthEdge (monthIndex now - p) = monthEdge (monthIndex t) + daysIn (monthIndex t) := by
    have hnext : monthIndex now - p = monthIndex t + 1 := by
      rw [h.month]
      push_cast
      ring
    rw [hnext, daysIn]
    ring
  have hbefore : monthIndex now - ((p + 1 : ℕ) : ℤ) = monthIndex t := h.month.symm
  rw [hbefore] at hall
  have hday := h.day
  have hnow := dayOfMonth_bounds now
  have hlength := daysIn_bounds (monthIndex t)
  rw [dayOfMonth] at hday
  have hdom : dayOfMonth now = now / dayMs - monthEdge (monthIndex now) + 1 := rfl
  have htime := h.time
  have hdays : 28 * (p + 1 : ℤ) ≤ now / dayMs - t / dayMs ∧
      now / dayMs - t / dayMs ≤ 31 * (p + 1 : ℤ) := by
    push_cast at hall
    omega
  push_cast
  simp only [dayMs] at *
  omega

end

end Counted.Analytics
