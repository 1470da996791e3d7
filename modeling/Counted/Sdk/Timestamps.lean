import Counted.Kernel.CivilDate
import Counted.Kernel.FixedWidth
import Counted.Sdk.Pauses

namespace Counted.Sdk.Rust

open Calendar

/-! ### Arithmetic that stops the process where a value does not fit -/

def fitsI64 (n : ℤ) : Option ℤ := if -2 ^ 63 ≤ n ∧ n ≤ i64Max then some n else none

def subU64 (a b : ℕ) : Option ℕ := if b ≤ a then some (a - b) else none

def mulU64 (a b : ℕ) : Option ℕ := if a * b ≤ u64Max then some (a * b) else none

/-- `as u64` and `as u32` wrap. -/
def asU64 (n : ℤ) : ℕ := (n % 2 ^ 64).toNat

def asU32 (n : ℕ) : ℕ := n % 2 ^ 32

/-! ### `civil_from_days` -/

def yearOfEra (doe : ℕ) : Option ℕ := do
  let a ← subU64 doe (doe / 1460)
  let b ← addU64 a (doe / 36524)
  let c ← subU64 b (doe / 146096)
  return c / 365

def dayOfYear (doe yoe : ℕ) : Option ℕ := do
  let whole ← mulU64 365 yoe
  let a ← addU64 whole (yoe / 4)
  let b ← subU64 a (yoe / 100)
  subU64 doe b

/-- The day and the month of a day of the year that begins in March. -/
def dayAndMonth (doy : ℕ) : Option (ℕ × ℕ) := do
  let five ← mulU64 5 doy
  let a ← addU64 five 2
  let mp := a / 153
  let b ← mulU64 153 mp
  let c ← addU64 b 2
  let e ← subU64 doy (c / 5)
  let d ← addU64 e 1
  let m ← (if mp < 10 then addU64 mp 3 else subU64 mp 9)
  return (asU32 d, asU32 m)

/-- Days from the epoch to year, month and day. -/
def civilFromDays (z : ℤ) : Option (ℤ × ℕ × ℕ) := do
  let z ← fitsI64 (z + 719468)
  let numerator ← (if 0 ≤ z then some z else fitsI64 (z - 146096))
  let era := numerator.tdiv 146097
  let start ← fitsI64 (era * 146097)
  let offset ← fitsI64 (z - start)
  let doe := asU64 offset
  let yoe ← yearOfEra doe
  let first ← fitsI64 (era * 400)
  let y ← fitsI64 (yoe + first)
  let doy ← dayOfYear doe yoe
  let (d, m) ← dayAndMonth doy
  let year ← (if m ≤ 2 then fitsI64 (y + 1) else some y)
  return (year, m, d)

/-- `iso`. Years before 0 do not occur. -/
def iso (millis : ℕ) : Option JsString := do
  let secs : ℤ := (millis / 1000 : ℕ)
  let ms := millis % 1000
  let days := secs / 86400
  let rem := (secs % 86400).toNat
  let (y, m, d) ← civilFromDays days
  return pad 4 y.toNat ++ js "-" ++ pad 2 m ++ js "-" ++ pad 2 d ++ js "T" ++ pad 2 (rem / 3600) ++
    js ":" ++ pad 2 (rem % 3600 / 60) ++ js ":" ++ pad 2 (rem % 60) ++ js "." ++ pad 3 ms ++ js "Z"

variable {doe yoe doy : ℕ} {z era : ℤ}

theorem fitsI64_eq {n : ℤ} (h : -2 ^ 63 ≤ n ∧ n ≤ i64Max) : fitsI64 n = some n := if_pos h

theorem subU64_eq {a b : ℕ} (h : b ≤ a) : subU64 a b = some (a - b) := if_pos h

theorem addU64_eq {a b : ℕ} (h : a + b ≤ u64Max) : addU64 a b = some (a + b) := if_pos h

theorem mulU64_eq {a b : ℕ} (h : a * b ≤ u64Max) : mulU64 a b = some (a * b) := if_pos h

/-! ### The year of an era -/

/-- A day of an era in centuries, blocks of four years and days. Only the last century has a leap
day at its end. -/
theorem era_split (h : doe < 146097) : ∃ q k s : ℕ, q ≤ 3 ∧ k ≤ 24 ∧ s ≤ 1460 ∧
    doe = 36524 * q + 1461 * k + s ∧ doe / 36524 - doe / 146096 = q ∧
    (k = 24 → s = 1460 → q = 3) := by
  obtain ⟨q, r, hq, hr, hdoe, hcentury⟩ : ∃ q r, q ≤ 3 ∧ (r ≤ 36523 ∨ r = 36524 ∧ q = 3) ∧
      doe = 36524 * q + r ∧ doe / 36524 - doe / 146096 = q := by
    by_cases hlast : doe = 146096
    · subst hlast
      exact ⟨3, 36524, le_rfl, .inr ⟨rfl, rfl⟩, by decide, by decide⟩
    · have hzero : doe / 146096 = 0 := Nat.div_eq_of_lt (by omega)
      rw [hzero]
      exact ⟨doe / 36524, doe % 36524, by omega, .inl (by omega), by omega, rfl⟩
  exact ⟨q, r / 1461, r % 1461, hq, by omega, by omega, by omega, hcentury, by omega⟩

/-- The corrections take out the leap days of the years before. -/
theorem corrected_year {q k s : ℕ} (hq : q ≤ 3) (hk : k ≤ 24) (hs : s ≤ 1460)
    (hdoe : doe = 36524 * q + 1461 * k + s) (hcentury : doe / 36524 - doe / 146096 = q) :
    ∃ u, (doe - doe / 1460 + doe / 36524 - doe / 146096) / 365 = 100 * q + 4 * k + u ∧ u ≤ 3 ∧
      365 * u ≤ s ∧ (s < 365 * (u + 1) ∨ u = 3) := by
  have hle : doe / 146096 ≤ doe / 36524 := Nat.div_le_div_left (by decide) (by decide)
  generalize doe / 36524 = a at *
  generalize doe / 146096 = b at *
  obtain ⟨t, ht⟩ : ∃ t, t = (24 * q + k + s) / 1460 := ⟨_, rfl⟩
  have hfour : doe / 1460 = 25 * q + k + t := by
    have hsplit : doe = 1460 * (25 * q + k) + (24 * q + k + s) := by omega
    rw [hsplit, Nat.mul_add_div (by decide), ht]
  have hts : t ≤ s ∧ (t = 0 ∨ t = 1 ∧ 1364 ≤ s) ∧ (s = 1460 → t = 1) := by omega
  have hnum : doe - doe / 1460 + a - b = 365 * (100 * q + 4 * k) + (s - t) := by omega
  rw [hnum, Nat.mul_add_div (by decide)]
  clear hnum hfour hdoe hle hcentury ht
  exact ⟨(s - t) / 365, rfl, by omega, by omega, by omega⟩

/-- The day lies in the year. -/
theorem year_bounds {q k s u : ℕ} (hq : q ≤ 3) (hk : k ≤ 24) (hs : s ≤ 1460)
    (hdoe : doe = 36524 * q + 1461 * k + s) (hlast : k = 24 → s = 1460 → q = 3) (hu : u ≤ 3)
    (hlo : 365 * u ≤ s) (hhi : s < 365 * (u + 1) ∨ u = 3) (hyoe : yoe = 100 * q + 4 * k + u) :
    yoe < 400 ∧ 365 * yoe + yoe / 4 - yoe / 100 ≤ doe ∧
      (doe < 365 * (yoe + 1) + (yoe + 1) / 4 - (yoe + 1) / 100 ∨ yoe = 399) := by
  have hfour : yoe / 4 = 25 * q + k := by omega
  have hhundred : yoe / 100 = q := by omega
  refine ⟨by omega, by rw [hfour, hhundred]; omega, ?_⟩
  by_cases hend : u = 3
  · have hfour' : (yoe + 1) / 4 = 25 * q + k + 1 := by omega
    by_cases hcentury : k = 24
    · have hhundred' : (yoe + 1) / 100 = q + 1 := by omega
      rw [hfour', hhundred']
      omega
    · have hhundred' : (yoe + 1) / 100 = q := by omega
      rw [hfour', hhundred']
      omega
  · have hfour' : (yoe + 1) / 4 = 25 * q + k := by omega
    have hhundred' : (yoe + 1) / 100 = q := by omega
    rw [hfour', hhundred']
    omega

theorem yearOfEra_spec (h : doe < 146097) : ∃ yoe, yearOfEra doe = some yoe ∧ yoe < 400 ∧
    365 * yoe + yoe / 4 - yoe / 100 ≤ doe ∧
    (doe < 365 * (yoe + 1) + (yoe + 1) / 4 - (yoe + 1) / 100 ∨ yoe = 399) := by
  obtain ⟨q, k, s, hq, hk, hs, hdoe, hcentury, hlast⟩ := era_split h
  obtain ⟨u, hyear, hu, hlo, hhi⟩ := corrected_year hq hk hs hdoe hcentury
  refine ⟨_, ?_, year_bounds hq hk hs hdoe hlast hu hlo hhi hyear⟩
  rw [yearOfEra, subU64_eq (by omega)]
  dsimp only [Option.bind_eq_bind, Option.bind_some]
  rw [addU64_eq (by rw [u64Max]; omega)]
  dsimp only [Option.bind_some]
  rw [subU64_eq (by omega)]
  rfl

theorem dayOfYear_eq (hyoe : yoe < 400) (h : 365 * yoe + yoe / 4 - yoe / 100 ≤ doe) :
    dayOfYear doe yoe = some (doe - (365 * yoe + yoe / 4 - yoe / 100)) := by
  rw [dayOfYear, mulU64_eq (by rw [u64Max]; omega)]
  dsimp only [Option.bind_eq_bind, Option.bind_some]
  rw [addU64_eq (by rw [u64Max]; omega)]
  dsimp only [Option.bind_some]
  rw [subU64_eq (by omega)]
  exact subU64_eq h

/-- The day and the month, counted from January. -/
theorem dayAndMonth_spec (h : doy ≤ 365) : ∃ mp, mp ≤ 11 ∧
    dayAndMonth doy = some (doy - daysFromMarch mp + 1, if mp < 10 then mp + 3 else mp - 9) ∧
    daysFromMarch mp ≤ doy ∧ (doy < daysFromMarch (mp + 1) ∨ mp = 11) := by
  obtain ⟨mp, hmp⟩ : ∃ mp, mp = (5 * doy + 2) / 153 := ⟨_, rfl⟩
  have hlo : daysFromMarch mp ≤ doy := by
    rw [daysFromMarch]
    omega
  refine ⟨mp, by omega, ?_, hlo, .inl ?_⟩
  · have hmonth : (if mp < 10 then addU64 mp 3 else subU64 mp 9) =
        some (if mp < 10 then mp + 3 else mp - 9) := by
      split_ifs
      · exact addU64_eq (by rw [u64Max]; omega)
      · exact subU64_eq (by omega)
    rw [daysFromMarch] at hlo ⊢
    rw [dayAndMonth, mulU64_eq (by rw [u64Max]; omega)]
    dsimp only [Option.bind_eq_bind, Option.bind_some]
    rw [addU64_eq (by rw [u64Max]; omega)]
    dsimp only [Option.bind_some]
    rw [← hmp, mulU64_eq (by rw [u64Max]; omega)]
    dsimp only [Option.bind_some]
    rw [addU64_eq (by rw [u64Max]; omega)]
    dsimp only [Option.bind_some]
    rw [subU64_eq hlo]
    dsimp only [Option.bind_some]
    rw [addU64_eq (by rw [u64Max]; omega)]
    dsimp only [Option.bind_some]
    rw [hmonth]
    dsimp only [Option.bind_some]
    rw [asU32, asU32, Nat.mod_eq_of_lt (by omega), Nat.mod_eq_of_lt (by split_ifs <;> omega)]
    rfl
  · rw [daysFromMarch]
    omega

/-! ### The date of a day -/

/-- A day whose shift to March fits. -/
structure Day where
  number : ℤ
  low : -2 ^ 63 ≤ number
  high : number + 719468 ≤ i64Max

theorem marchStart_of_era (era : ℤ) (h : yoe < 400) : marchStart (yoe + era * 400) =
    146097 * era + (365 * yoe + yoe / 4 - yoe / 100 : ℕ) - 719468 := by
  have hfour : ((yoe : ℤ) + era * 400) / 4 = yoe / 4 + 100 * era := by omega
  have hhundred : ((yoe : ℤ) + era * 400) / 100 = yoe / 100 + 4 * era := by omega
  have hera : ((yoe : ℤ) + era * 400) / 400 = era := by omega
  have hle : yoe / 100 ≤ 365 * yoe + yoe / 4 := by omega
  rw [marchStart_eq, hfour, hhundred, hera]
  push_cast [hle]
  ring

/-- The era, the year of the era and the day of that year. -/
theorem exists_march (z : ℤ) : ∃ (era : ℤ) (doe yoe : ℕ), z + 719468 = era * 146097 + doe ∧
    doe < 146097 ∧ yearOfEra doe = some yoe ∧ yoe < 400 ∧
    365 * yoe + yoe / 4 - yoe / 100 ≤ doe ∧
    marchStart (yoe + era * 400) + (doe - (365 * yoe + yoe / 4 - yoe / 100) : ℕ) = z ∧
    z < marchStart (yoe + era * 400 + 1) := by
  obtain ⟨era, doe, hz, hlt⟩ : ∃ (era : ℤ) (doe : ℕ), z + 719468 = era * 146097 + doe ∧
      doe < 146097 := ⟨(z + 719468) / 146097, ((z + 719468) % 146097).toNat, by omega, by omega⟩
  obtain ⟨yoe, hyear, hyoe, hlo, hhi⟩ := yearOfEra_spec hlt
  refine ⟨era, doe, yoe, hz, hlt, hyear, hyoe, hlo, ?_, ?_⟩
  · rw [marchStart_of_era era hyoe]
    omega
  · by_cases hend : yoe + 1 < 400
    · have hnext := marchStart_of_era era hend
      rw [show ((yoe + 1 : ℕ) : ℤ) + era * 400 = yoe + era * 400 + 1 by push_cast; ring] at hnext
      rw [hnext]
      omega
    · obtain rfl : yoe = 399 := by omega
      have hnext := marchStart_of_era (era + 1) (show 0 < 400 by decide)
      rw [show ((0 : ℕ) : ℤ) + (era + 1) * 400 = (399 : ℕ) + era * 400 + 1 by push_cast; ring] at hnext
      rw [hnext]
      omega

/-- The truncating division, after its correction, rounds down. -/
theorem tdiv_era {doe : ℕ} (hz : z = era * 146097 + doe) (hlt : doe < 146097) :
    (if 0 ≤ z then z else z - 146096).tdiv 146097 = era := by
  split_ifs with h0
  · rw [Int.tdiv_eq_ediv_of_nonneg h0]
    omega
  · rw [show z - 146096 = -(146096 - z) by ring, Int.neg_tdiv, Int.tdiv_eq_ediv_of_nonneg (by omega)]
    omega

/-- Every day has its date, and no value on the way to it is out of range. -/
theorem civilFromDays_spec (z : Day) : ∃ c : CivilDate,
    civilFromDays z.number = some (c.year, c.month, c.day) ∧ c.days = z.number := by
  obtain ⟨z, hlow, hhigh⟩ := z
  have hi : i64Max = 9223372036854775807 := by rw [i64Max]; rfl
  dsimp only
  rw [hi] at hhigh
  obtain ⟨era, doe, yoe, hz, hlt, hyear, hyoe, hlo, hmarch, hnext⟩ := exists_march z
  obtain ⟨doy, hdoy⟩ : ∃ doy, doy = doe - (365 * yoe + yoe / 4 - yoe / 100) := ⟨_, rfl⟩
  rw [← hdoy] at hmarch
  rw [← hmarch] at hnext
  obtain ⟨y, hy⟩ : ∃ y : ℤ, y = yoe + era * 400 := ⟨_, rfl⟩
  rw [← hy] at hmarch hnext
  have hdoy' : doy ≤ 365 := by
    rw [marchStart_eq, marchStart_eq] at hnext
    omega
  obtain ⟨mp, hmp, hmonth, hmlo, hmhi⟩ := dayAndMonth_spec hdoy'
  obtain ⟨c, hcy, hcm, hcd, hc⟩ := exists_civilDate y hmp hmlo hmhi hnext
  refine ⟨c, ?_, hc.trans hmarch⟩
  have hnumerator : (if 0 ≤ z + 719468 then some (z + 719468) else fitsI64 (z + 719468 - 146096)) =
      some (if 0 ≤ z + 719468 then z + 719468 else z + 719468 - 146096) := by
    split_ifs
    · rfl
    · exact fitsI64_eq (by rw [hi]; omega)
  have hoffset : asU64 (z + 719468 - era * 146097) = doe := by
    rw [asU64]
    omega
  rw [civilFromDays, fitsI64_eq (by rw [hi]; omega)]
  dsimp only [Option.bind_eq_bind, Option.bind_some]
  rw [hnumerator]
  dsimp only [Option.bind_some]
  rw [tdiv_era hz hlt, fitsI64_eq (by rw [hi]; omega)]
  dsimp only [Option.bind_some]
  rw [fitsI64_eq (by rw [hi]; omega)]
  dsimp only [Option.bind_some]
  rw [hoffset, hyear]
  dsimp only [Option.bind_some]
  rw [fitsI64_eq (by rw [hi]; omega)]
  dsimp only [Option.bind_some]
  rw [fitsI64_eq (by rw [hi]; omega), ← hy]
  dsimp only [Option.bind_some]
  rw [dayOfYear_eq hyoe hlo, ← hdoy]
  dsimp only [Option.bind_some]
  rw [hmonth]
  dsimp only [Option.bind_some]
  rw [hcy, hcm, hcd, fromMarch]
  by_cases hten : mp < 10
  · rw [if_pos hten, if_pos hten, if_neg (by omega)]
    rfl
  · rw [if_neg hten, if_neg hten, if_pos (by omega), fitsI64_eq (by rw [hi]; omega)]
    dsimp only [Option.bind_some]
    rw [show mp - 9 = mp - 10 + 1 by omega]
    rfl

theorem civilFromDays_eq_iff (z : Day) (c : CivilDate) :
    civilFromDays z.number = some (c.year, c.month, c.day) ↔ c.days = z.number := by
  obtain ⟨a, ha, hdays⟩ := civilFromDays_spec z
  rw [ha, ← hdays]
  constructor
  · intro h
    obtain ⟨hy, hmd⟩ := Prod.mk.inj (Option.some.inj h)
    obtain ⟨hm, hd⟩ := Prod.mk.inj hmd
    exact congrArg CivilDate.days (CivilDate.ext hy hm hd).symm
  · intro h
    rw [CivilDate.days_injective h]

/-! ### Timestamps -/

/-- A millisecond of a day of the calendar. -/
@[ext]
structure Moment where
  date : CivilDate
  hour : ℕ
  minute : ℕ
  second : ℕ
  milli : ℕ
  hour_lt : hour < 24
  minute_lt : minute < 60
  second_lt : second < 60
  milli_lt : milli < 1000

namespace Moment

variable {a b : Moment}

/-- The milliseconds from the epoch. -/
def millis (a : Moment) : ℤ :=
  (((a.date.days * 24 + a.hour) * 60 + a.minute) * 60 + a.second) * 1000 + a.milli

def values (a : Moment) : List ℕ :=
  [a.date.year.toNat, a.date.month, a.date.day, a.hour, a.minute, a.second, a.milli]

/-- `YYYY-MM-DDTHH:MM:SS.mmmZ`. -/
def shape : List (ℕ × UInt16) := [(4, 45), (2, 45), (2, 84), (2, 58), (2, 58), (2, 46), (3, 90)]

def text (a : Moment) : JsString := fixedText shape a.values

theorem millis_injective : Function.Injective millis := by
  intro a b h
  obtain ⟨hah, ham, has, hal⟩ := (⟨a.hour_lt, a.minute_lt, a.second_lt, a.milli_lt⟩ :
    a.hour < 24 ∧ a.minute < 60 ∧ a.second < 60 ∧ a.milli < 1000)
  obtain ⟨hbh, hbm, hbs, hbl⟩ := (⟨b.hour_lt, b.minute_lt, b.second_lt, b.milli_lt⟩ :
    b.hour < 24 ∧ b.minute < 60 ∧ b.second < 60 ∧ b.milli < 1000)
  rw [millis, millis] at h
  have hdays : a.date.days = b.date.days := by omega
  exact Moment.ext (CivilDate.days_injective hdays) (by omega) (by omega) (by omega) (by omega)

/-- The years that are written with four digits. -/
def InRange (a : Moment) : Prop := 0 ≤ a.date.year ∧ a.date.year ≤ 9999

theorem InRange.fits (h : a.InRange) : Fits shape a.values := by
  have hm := a.date.month_le
  have hd : a.date.day ≤ 31 := by
    have hle := a.date.day_le
    rw [daysInMonth] at hle
    split_ifs at hle <;> omega
  have hh := a.hour_lt
  have hmi := a.minute_lt
  have hs := a.second_lt
  have hl := a.milli_lt
  obtain ⟨h0, h9999⟩ := h
  refine .cons ⟨by decide, ?_⟩ (.cons ⟨by decide, ?_⟩ (.cons ⟨by decide, ?_⟩ (.cons ⟨by decide, ?_⟩
    (.cons ⟨by decide, ?_⟩ (.cons ⟨by decide, ?_⟩ (.cons ⟨by decide, ?_⟩ .nil)))))) <;>
  · norm_num
    omega

/-- Later moments have later values. -/
theorem values_lt (ha : a.InRange) (h : a.millis < b.millis) : List.Lex (· < ·) a.values b.values := by
  obtain ⟨hah, ham, has, hal⟩ := (⟨a.hour_lt, a.minute_lt, a.second_lt, a.milli_lt⟩ :
    a.hour < 24 ∧ a.minute < 60 ∧ a.second < 60 ∧ a.milli < 1000)
  obtain ⟨hbh, hbm, hbs, hbl⟩ := (⟨b.hour_lt, b.minute_lt, b.second_lt, b.milli_lt⟩ :
    b.hour < 24 ∧ b.minute < 60 ∧ b.second < 60 ∧ b.milli < 1000)
  have ha0 := ha.1
  rw [millis, millis] at h
  simp only [values, List.lex_lt, List.cons_lt_cons_iff]
  rcases lt_trichotomy a.date.days b.date.days with hdays | hdays | hdays
  · rcases CivilDate.days_lt_iff.1 hdays with hy | ⟨hy, hm | ⟨hm, hd⟩⟩
    · exact .inl (by omega)
    · exact .inr ⟨by rw [hy], .inl hm⟩
    · exact .inr ⟨by rw [hy], .inr ⟨hm, .inl hd⟩⟩
  · rw [CivilDate.days_injective hdays]
    omega
  · omega

theorem text_lt (ha : a.InRange) (hb : b.InRange) (h : a.millis < b.millis) :
    List.Lex (· < ·) a.text b.text := fixedText_lt ha.fits hb.fits (values_lt ha h)

end Moment

/-- The milliseconds up to the end of the year 9999. -/
structure Millis where
  count : ℕ
  le : count ≤ 253402300799999

theorem iso_spec (t : Millis) : ∃ a : Moment, iso t.count = some a.text ∧ a.millis = t.count ∧
    a.InRange := by
  obtain ⟨t, hle⟩ := t
  dsimp only
  obtain ⟨secs, hsecs⟩ : ∃ secs : ℤ, secs = (t / 1000 : ℕ) := ⟨_, rfl⟩
  obtain ⟨rem, hrem⟩ : ∃ rem, rem = (secs % 86400).toNat := ⟨_, rfl⟩
  have hi : i64Max = 9223372036854775807 := by rw [i64Max]; rfl
  obtain ⟨c, hc, hdays⟩ := civilFromDays_spec ⟨secs / 86400, by omega, by rw [hi]; omega⟩
  dsimp only at hc hdays
  refine ⟨⟨c, rem / 3600, rem % 3600 / 60, rem % 60, t % 1000, by omega, by omega, by omega,
    by omega⟩, ?_, ?_, ?_⟩
  · rw [iso, ← hsecs]
    dsimp only
    rw [hc, ← hrem]
    simp only [Option.bind_eq_bind, Option.bind_some, Moment.text, Moment.shape, Moment.values,
      fixedText, js, List.append_assoc]
    rfl
  · rw [Moment.millis]
    dsimp only
    rw [hdays]
    omega
  · have hbounds := c.days_bounds
    have hpos := c.month_pos
    have hmle := c.month_le
    have hlow := CivilDate.monthStart_mono c.year (Nat.zero_le (c.month - 1)) (by omega)
    have hhigh := CivilDate.monthStart_mono c.year hmle le_rfl
    rw [monthStart_zero] at hlow
    rw [monthStart_twelve] at hhigh
    rw [yearStart] at hlow hhigh
    refine ⟨?_, ?_⟩ <;> dsimp only <;> omega

/-- `iso` writes the date of the instant, in the order of the instants, and `civil_from_days` is the
inverse of the count of days. -/
theorem timestamps_exact (s t : Millis) (z w : Day) (c : CivilDate) :
    (∃ a : Moment, iso t.count = some a.text ∧ a.InRange ∧ ∀ b : Moment, b.millis = t.count ↔ b = a) ∧
    (∃ a b, iso s.count = some a ∧ iso t.count = some b ∧
      (s.count < t.count ↔ List.Lex (· < ·) a b)) ∧
    (civilFromDays z.number = some (c.year, c.month, c.day) ↔ c.days = z.number) ∧
    ∃ a b : CivilDate, civilFromDays z.number = some (a.year, a.month, a.day) ∧
      civilFromDays w.number = some (b.year, b.month, b.day) ∧
      (z.number < w.number ↔ a.Before b) := by
  obtain ⟨a, ha, hat, harange⟩ := iso_spec t
  obtain ⟨b, hb, hbs, hbrange⟩ := iso_spec s
  obtain ⟨d, hd, hdays⟩ := civilFromDays_spec z
  obtain ⟨e, he, hdays'⟩ := civilFromDays_spec w
  refine ⟨⟨a, ha, harange, fun b ↦ ?_⟩, ⟨b.text, a.text, hb, ha, ?_⟩, civilFromDays_eq_iff z c,
    d, e, hd, he, ?_⟩
  · rw [← hat]
    exact Moment.millis_injective.eq_iff
  · constructor
    · intro h
      exact Moment.text_lt hbrange harange (by omega)
    · intro h
      by_contra hn
      rcases (not_lt.1 hn).eq_or_lt with heq | hlt
      · have hab : a = b := Moment.millis_injective (by omega)
        rw [hab] at h
        exact absurd h (List.lt_irrefl _)
      · exact absurd h (List.lt_asymm (Moment.text_lt harange hbrange (by omega)))
  · rw [← hdays, ← hdays']
    exact CivilDate.days_lt_iff

end Counted.Sdk.Rust
