import Counted.Kernel.JsonText

namespace Counted.Calendar

def dayMs : ℤ := 86400000

/-- `DayFromYear`: the day, counted from the epoch, a year of the Gregorian calendar begins on. -/
def yearStart (y : ℤ) : ℤ :=
  365 * (y - 1970) + (y - 1969) / 4 - (y - 1901) / 100 + (y - 1601) / 400

def leapDay (y : ℤ) : ℤ := yearStart (y + 1) - yearStart y - 365

/-- The days before a month, counted from January as 0, of a common year. -/
def daysBefore (m : ℕ) : ℤ :=
  [0, 31, 59, 90, 120, 151, 181, 212, 243, 273, 304, 334].getD m 365

def monthStart (y : ℤ) (m : ℕ) : ℤ := yearStart y + daysBefore m + if 2 ≤ m then leapDay y else 0

/-- `YearFromTime`. The mean year is off by less than one year. -/
def yearFromDay (day : ℤ) : ℤ :=
  let y := 1970 + 400 * day / 146097
  if day < yearStart y then y - 1 else if yearStart (y + 1) ≤ day then y + 1 else y

/-- `MonthFromTime`. -/
def monthFromDay (day : ℤ) : ℕ :=
  Nat.findGreatest (fun m ↦ monthStart (yearFromDay day) m ≤ day) 11

theorem yearFromDay_spec (day : ℤ) :
    yearStart (yearFromDay day) ≤ day ∧ day < yearStart (yearFromDay day + 1) := by
  obtain ⟨y, hy⟩ : ∃ y, y = 1970 + 400 * day / 146097 := ⟨_, rfl⟩
  have hb : yearStart (y - 1) ≤ day ∧ day < yearStart (y + 2) := by
    simp only [yearStart]
    omega
  rw [yearFromDay, ← hy]
  rcases lt_or_ge day (yearStart y) with h | h
  · simp only [if_pos h, sub_add_cancel]
    exact ⟨hb.1, h⟩
  · rcases le_or_gt (yearStart (y + 1)) day with h' | h'
    · simp only [if_neg (not_lt.2 h), if_pos h', add_assoc]
      exact ⟨h', hb.2⟩
    · simp only [if_neg (not_lt.2 h), if_neg (not_le.2 h')]
      exact ⟨h, h'⟩

theorem leapDay_cases (y : ℤ) : leapDay y = 0 ∨ leapDay y = 1 := by
  simp only [leapDay, yearStart]
  omega

theorem monthStart_zero (y : ℤ) : monthStart y 0 = yearStart y := by
  simp [monthStart, daysBefore]

theorem monthStart_twelve (y : ℤ) : monthStart y 12 = yearStart (y + 1) := by
  simp [monthStart, daysBefore, leapDay]

theorem monthStart_lt (y : ℤ) {m : ℕ} (hm : m < 12) : monthStart y m < monthStart y (m + 1) := by
  have hl := leapDay_cases y
  interval_cases m
  all_goals
    simp [monthStart, daysBefore]
    try omega

theorem monthFromDay_spec (day : ℤ) :
    monthFromDay day < 12 ∧ monthStart (yearFromDay day) (monthFromDay day) ≤ day ∧
      day < monthStart (yearFromDay day) (monthFromDay day + 1) := by
  obtain ⟨hlo, hhi⟩ := yearFromDay_spec day
  have hle : monthFromDay day ≤ 11 := Nat.findGreatest_le 11
  refine ⟨by omega, ?_, ?_⟩
  · exact Nat.findGreatest_spec (P := fun m ↦ monthStart (yearFromDay day) m ≤ day) (Nat.zero_le 11)
      (by simpa only [monthStart_zero] using hlo)
  · rcases hle.eq_or_lt with h | h
    · rw [h, monthStart_twelve]
      exact hhi
    · exact not_le.1 (Nat.findGreatest_is_greatest (Nat.lt_succ_self (monthFromDay day)) h)

def pad (width n : ℕ) : JsString := zeros (width - (natText n).length) ++ natText n

def yearText (y : ℤ) : JsString :=
  if 0 ≤ y ∧ y ≤ 9999 then pad 4 y.toNat
  else (if y < 0 then js "-" else js "+") ++ pad 6 y.natAbs

/-- `Date.prototype.toISOString` of a valid date. -/
def toISOString (t : ℤ) : JsString :=
  let day := t / dayMs
  let ms := (t % dayMs).toNat
  let y := yearFromDay day
  let m := monthFromDay day
  yearText y ++ js "-" ++ pad 2 (m + 1) ++ js "-" ++ pad 2 (day - monthStart y m + 1).toNat ++
    js "T" ++ pad 2 (ms / 3600000) ++ js ":" ++ pad 2 (ms / 60000 % 60) ++ js ":" ++
    pad 2 (ms / 1000 % 60) ++ js "." ++ pad 3 (ms % 1000) ++ js "Z"

theorem pad_digits (width n : ℕ) : IsDigits (pad width n) :=
  (zeros_digits _).append (natText_digits n)

theorem toISOString_storable (t : ℤ) : storable (toISOString t) = true := by
  have hp (width n : ℕ) : Plain (pad width n) := (pad_digits width n).plain
  have hy (y : ℤ) : Plain (yearText y) := by
    unfold yearText
    split_ifs
    · exact hp 4 _
    · exact (plain_of_all (by decide)).append (hp 6 _)
    · exact (plain_of_all (by decide)).append (hp 6 _)
  apply Plain.storable
  refine .append (.append (.append (.append (.append (.append (.append (.append (.append (.append
    (.append (.append (.append (hy _) ?_) (hp _ _)) ?_) (hp _ _)) ?_) (hp _ _)) ?_) (hp _ _)) ?_)
    (hp _ _)) ?_) (hp _ _)) ?_ <;> exact plain_of_all (by decide)

/-- The range of `Date`. -/
def maxTime : ℤ := 8640000000000000

/-- `TimeClip`: beyond the range there is no date, and a fraction is dropped. -/
def timeClip (d : Decimal) : Option ℤ :=
  if (maxTime : Decimal).lt d || d.lt (-maxTime : ℤ) then none
  else some (if 0 ≤ d.exp then d.mant * 10 ^ d.exp.toNat else d.mant.tdiv (10 ^ (-d.exp).toNat))

example : toISOString 1709210096789 = js "2024-02-29T12:34:56.789Z" := by decide
example : toISOString (-62198755200000) = js "-000001-01-01T00:00:00.000Z" := by decide

end Counted.Calendar
