import Counted.Kernel.Calendar

namespace Counted.Calendar

def IsLeap (y : ℤ) : Prop := 4 ∣ y ∧ (¬ 100 ∣ y ∨ 400 ∣ y)

instance : DecidablePred IsLeap := fun y ↦ by
  unfold IsLeap
  infer_instance

def daysInMonth (y : ℤ) (m : ℕ) : ℕ :=
  if m = 2 then if IsLeap y then 29 else 28
  else if m ∈ [4, 6, 9, 11] then 30
  else 31

/-- A day of the Gregorian calendar, with the months counted from 1. -/
@[ext]
structure CivilDate where
  year : ℤ
  month : ℕ
  day : ℕ
  month_pos : 1 ≤ month
  month_le : month ≤ 12
  day_pos : 1 ≤ day
  day_le : day ≤ daysInMonth year month

theorem leapDay_eq (y : ℤ) : leapDay y = if IsLeap y then 1 else 0 := by
  unfold IsLeap leapDay yearStart
  split_ifs with h
  · omega
  · omega

theorem monthStart_succ (y : ℤ) {m : ℕ} (hm : m < 12) :
    monthStart y (m + 1) = monthStart y m + daysInMonth y (m + 1) := by
  have hl := leapDay_eq y
  by_cases hleap : IsLeap y
  · rw [if_pos hleap] at hl
    interval_cases m <;> simp [monthStart, daysBefore, daysInMonth, hleap, hl] <;> ring
  · rw [if_neg hleap] at hl
    interval_cases m <;> simp [monthStart, daysBefore, daysInMonth, hleap, hl] <;> ring

namespace CivilDate

variable {a b : CivilDate}

/-- The days from the epoch. -/
def days (a : CivilDate) : ℤ := monthStart a.year (a.month - 1) + (a.day - 1)

def Before (a b : CivilDate) : Prop :=
  a.year < b.year ∨ a.year = b.year ∧ (a.month < b.month ∨ a.month = b.month ∧ a.day < b.day)

/-- `b` is the day after `a`. -/
def Follows (a b : CivilDate) : Prop :=
  if a.day < daysInMonth a.year a.month then
    b.year = a.year ∧ b.month = a.month ∧ b.day = a.day + 1
  else if a.month < 12 then b.year = a.year ∧ b.month = a.month + 1 ∧ b.day = 1
  else b.year = a.year + 1 ∧ b.month = 1 ∧ b.day = 1

def epoch : CivilDate := ⟨1970, 1, 1, by decide, by decide, by decide, by decide⟩

theorem monthStart_mono (y : ℤ) {m n : ℕ} (hmn : m ≤ n) (hn : n ≤ 12) :
    monthStart y m ≤ monthStart y n := by
  induction n, hmn using Nat.le_induction with
  | base => exact le_rfl
  | succ n _ ih => exact (ih (by omega)).trans (monthStart_lt y (by omega)).le

theorem yearStart_mono {y z : ℤ} (h : y ≤ z) : yearStart y ≤ yearStart z := by
  unfold yearStart
  omega

/-- A day lies in its month. -/
theorem days_bounds (a : CivilDate) :
    monthStart a.year (a.month - 1) ≤ a.days ∧ a.days < monthStart a.year a.month := by
  have hsucc := monthStart_succ a.year (m := a.month - 1) (by have := a.month_le; have := a.month_pos; omega)
  have hpos := a.month_pos
  have hday := a.day_pos
  have hle := a.day_le
  rw [Nat.sub_add_cancel hpos] at hsucc
  rw [days]
  omega

theorem Before.days_lt (h : a.Before b) : a.days < b.days := by
  have ha := a.days_bounds
  have hb := b.days_bounds
  have hap := a.month_pos
  have hbp := b.month_pos
  rcases h with hy | ⟨hy, hm | ⟨hm, hd⟩⟩
  · have hyear : monthStart a.year a.month ≤ yearStart (a.year + 1) :=
      monthStart_twelve a.year ▸ monthStart_mono _ a.month_le le_rfl
    have hyear' : yearStart b.year ≤ monthStart b.year (b.month - 1) :=
      monthStart_zero b.year ▸ monthStart_mono _ (Nat.zero_le _) (by have := b.month_le; omega)
    have hmono : yearStart (a.year + 1) ≤ yearStart b.year := yearStart_mono hy
    omega
  · have hmono := monthStart_mono a.year (m := a.month) (n := b.month - 1) (by omega)
      (by have := b.month_le; omega)
    rw [← hy] at hb
    omega
  · rw [days, days, hy, hm]
    omega

theorem before_or_eq_or_before (a b : CivilDate) : a.Before b ∨ a = b ∨ b.Before a := by
  unfold Before
  rw [CivilDate.ext_iff]
  omega

theorem days_lt_iff : a.days < b.days ↔ a.Before b := by
  refine ⟨fun h ↦ ?_, Before.days_lt⟩
  rcases before_or_eq_or_before a b with hab | rfl | hba
  · exact hab
  · exact absurd h (lt_irrefl _)
  · exact absurd h hba.days_lt.asymm

theorem days_injective : Function.Injective days := by
  intro a b h
  rcases before_or_eq_or_before a b with hab | hab | hba
  · exact absurd h hab.days_lt.ne
  · exact hab
  · exact absurd h hba.days_lt.ne'

theorem epoch_days : epoch.days = 0 := by decide

/-- The count is the one that goes up by one from each day to the next. -/
theorem Follows.days (h : a.Follows b) : b.days = a.days + 1 := by
  have hpos := a.month_pos
  have hmonth := a.month_le
  have hle := a.day_le
  have hsucc := monthStart_succ a.year (m := a.month - 1) (by omega)
  rw [Nat.sub_add_cancel hpos] at hsucc
  rw [Follows] at h
  split_ifs at h with hday hdecember
  · obtain ⟨hy, hm, hd⟩ := h
    rw [CivilDate.days, CivilDate.days, hy, hm, hd]
    omega
  · obtain ⟨hy, hm, hd⟩ := h
    rw [CivilDate.days, CivilDate.days, hy, hm, hd, Nat.add_sub_cancel]
    omega
  · obtain ⟨hy, hm, hd⟩ := h
    have hm12 : a.month = 12 := by omega
    rw [hm12, monthStart_twelve] at hsucc
    rw [CivilDate.days, CivilDate.days, hy, hm, hd, hm12, Nat.sub_self, monthStart_zero]
    rw [hm12] at hday hle
    omega

end CivilDate

/-! ### Years that begin in March -/

def marchStart (y : ℤ) : ℤ := monthStart y 2

/-- The days of a year before a month, both counted from March. -/
def daysFromMarch (mp : ℕ) : ℕ := (153 * mp + 2) / 5

theorem marchStart_eq (y : ℤ) :
    marchStart y = 365 * y + y / 4 - y / 100 + y / 400 - 719468 := by
  have hl : leapDay y = yearStart (y + 1) - yearStart y - 365 := rfl
  rw [marchStart, monthStart, if_pos le_rfl, hl, yearStart, yearStart]
  simp only [daysBefore, List.getD_cons_succ, List.getD_cons_zero]
  omega

/-- A month of a year that begins in March, in the calendar's own year and counted from January. -/
def fromMarch (y : ℤ) (mp : ℕ) : ℤ × ℕ := if mp < 10 then (y, mp + 2) else (y + 1, mp - 10)

theorem monthStart_fromMarch (y : ℤ) {mp : ℕ} (h : mp ≤ 11) :
    monthStart (fromMarch y mp).1 (fromMarch y mp).2 = marchStart y + daysFromMarch mp := by
  have hl : leapDay y = yearStart (y + 1) - yearStart y - 365 := rfl
  interval_cases mp <;>
    simp [fromMarch, marchStart, monthStart, daysBefore, daysFromMarch] <;> omega

/-- The month a day of such a year lies in. -/
theorem march_day (y : ℤ) {mp doy : ℕ} (hmp : mp ≤ 11) (hlo : daysFromMarch mp ≤ doy)
    (hhi : doy < daysFromMarch (mp + 1) ∨ mp = 11) (hyear : marchStart y + doy < marchStart (y + 1)) :
    monthStart (fromMarch y mp).1 (fromMarch y mp).2 ≤ marchStart y + doy ∧
      marchStart y + doy < monthStart (fromMarch y mp).1 ((fromMarch y mp).2 + 1) := by
  refine ⟨by rw [monthStart_fromMarch y hmp]; omega, ?_⟩
  rcases hmp.eq_or_lt with rfl | hlt
  · exact hyear
  · have hnext := monthStart_fromMarch y (show mp + 1 ≤ 11 from hlt)
    have hstart : monthStart (fromMarch y mp).1 ((fromMarch y mp).2 + 1) =
        monthStart (fromMarch y (mp + 1)).1 (fromMarch y (mp + 1)).2 := by
      by_cases hnine : mp = 9
      · subst hnine
        exact (monthStart_twelve y).trans (monthStart_zero (y + 1)).symm
      · rw [fromMarch, fromMarch]
        split_ifs
        · rfl
        · omega
        · omega
        · rw [show mp + 1 - 10 = mp - 10 + 1 by omega]
    rw [hstart, hnext]
    omega

theorem fromMarch_lt (y : ℤ) {mp : ℕ} (h : mp ≤ 11) : (fromMarch y mp).2 < 12 := by
  rw [fromMarch]
  split_ifs
  · dsimp only
    omega
  · dsimp only
    omega

/-- The day of the month, and the date. -/
theorem exists_civilDate (y : ℤ) {mp doy : ℕ} (hmp : mp ≤ 11) (hlo : daysFromMarch mp ≤ doy)
    (hhi : doy < daysFromMarch (mp + 1) ∨ mp = 11) (hyear : marchStart y + doy < marchStart (y + 1)) :
    ∃ c : CivilDate, c.year = (fromMarch y mp).1 ∧ c.month = (fromMarch y mp).2 + 1 ∧
      c.day = doy - daysFromMarch mp + 1 ∧ c.days = marchStart y + doy := by
  obtain ⟨-, hlt⟩ := march_day y hmp hlo hhi hyear
  have hmonth := fromMarch_lt y hmp
  rw [monthStart_succ _ hmonth, monthStart_fromMarch y hmp] at hlt
  refine ⟨⟨(fromMarch y mp).1, (fromMarch y mp).2 + 1, doy - daysFromMarch mp + 1, by omega,
    by omega, by omega, by omega⟩, rfl, rfl, rfl, ?_⟩
  rw [CivilDate.days]
  dsimp only
  rw [Nat.add_sub_cancel, monthStart_fromMarch y hmp]
  omega

end Counted.Calendar
