import Counted.Analytics.Analysis
import Counted.Analytics.Months
import Counted.Kernel.Whole

namespace Counted.Analytics

open Calendar

/-- What is used of `-` and `*` on doubles: they are exact where a double holds the result, and
rounding keeps the order. -/
structure Calculates (ar : Arithmetic) : Prop where
  sub_whole : ∀ a b : ℤ, |a| ≤ 2 ^ 53 → |b| ≤ 2 ^ 53 → |a - b| ≤ 2 ^ 53 →
    ar.sub a b = ((a - b : ℤ) : JsNumber)
  sub_anti : ∀ (c : ℤ) (a b : JsNumber), a.le b = true → (ar.sub c b).le (ar.sub c a) = true
  sub_lt : ∀ (a : JsNumber) (m n : ℤ), 0 ≤ m → m ≤ n → n ≤ 2 ^ 53 → a.lt n = true →
    JsNumber.lt ((m - n : ℤ) : JsNumber) (ar.sub m a) = true
  mul_whole : ∀ (a b m : ℤ) (e : ℕ), a * b = m * 2 ^ e → |m| ≤ 2 ^ 53 → e ≤ 900 →
    ar.mul a b = ((a * b : ℤ) : JsNumber)
  mul_mono : ∀ (a b : JsNumber) (c : ℤ), a.le b = true → 0 < c →
    (ar.mul a c).le (ar.mul b c) = true
  nan_sub : ∀ a : JsNumber, ar.sub a .nan = .nan
  nan_mul : ∀ a : JsNumber, ar.mul .nan a = .nan

/-- The window immediately before this one. A relative one goes back by the calendar again. -/
def previousWindow (ar : Arithmetic) (w : Window) (now : Instant) : Window :=
  let bounds := resolveWindow ar w now
  match w with
  | .absolute fromMs toMs => .absolute (ar.sub fromMs (ar.sub toMs fromMs)) fromMs
  | .relative .. => .absolute
    ((bounds.fromMs.whole.map (fun t ↦ (resolveWindow ar w t).fromMs)).getD .nan) bounds.fromMs

theorem truncate_gt {d : Decimal} {n : ℤ} (hn : n < 0) (h : (n : ℚ) < d.toRat) : n < truncate d := by
  rw [truncate]
  split_ifs with he
  · obtain ⟨k, hk⟩ : ∃ k : ℕ, d.exp = k := ⟨d.exp.toNat, by omega⟩
    rw [Decimal.toRat, hk, zpow_natCast] at h
    rw [hk, Int.toNat_natCast]
    exact_mod_cast h
  · obtain ⟨k, hk⟩ : ∃ k : ℕ, d.exp = -k := ⟨(-d.exp).toNat, by omega⟩
    rw [Decimal.toRat, hk, zpow_neg, zpow_natCast, ← div_eq_mul_inv, lt_div_iff₀ (by positivity)] at h
    rw [hk, neg_neg, Int.toNat_natCast]
    have hwhole : n * 10 ^ k < d.mant := by exact_mod_cast h
    have hpos : (0 : ℤ) < 10 ^ k := by positivity
    rcases le_or_gt 0 d.mant with hm | hm
    · exact hn.trans_le (Int.tdiv_nonneg hm hpos.le)
    · obtain ⟨a, ha⟩ : ∃ a, d.mant = -a := ⟨-d.mant, by ring⟩
      rw [ha, Int.neg_tdiv, Int.tdiv_eq_ediv_of_nonneg (by omega)]
      have hlt : a / 10 ^ k < -n := Int.ediv_lt_of_lt_mul hpos (by
        rw [ha] at hwhole
        linarith)
      omega

theorem toInteger_gt {y : JsNumber} {n k : ℤ} (hn : n < 0)
    (h : JsNumber.lt (n : JsNumber) y = true) (hk : toInteger y = some k) : n < k := by
  cases y with
  | finite d =>
    cases hk
    refine truncate_gt hn ?_
    have hlt := (Decimal.lt_iff _ d).1 h
    rwa [Decimal.intCast_toRat] at hlt
  | infinity | nan => cases hk

theorem truncate_le {d : Decimal} {n : ℤ} (h : d.toRat ≤ n) : truncate d ≤ n := by
  rw [truncate]
  split_ifs with he
  · obtain ⟨k, hk⟩ : ∃ k : ℕ, d.exp = k := ⟨d.exp.toNat, by omega⟩
    rw [Decimal.toRat, hk, zpow_natCast] at h
    rw [hk, Int.toNat_natCast]
    exact_mod_cast h
  · obtain ⟨k, hk⟩ : ∃ k : ℕ, d.exp = -k := ⟨(-d.exp).toNat, by omega⟩
    rw [Decimal.toRat, hk, zpow_neg, zpow_natCast, ← div_eq_mul_inv, div_le_iff₀ (by positivity)] at h
    rw [hk, neg_neg, Int.toNat_natCast]
    have hwhole : d.mant ≤ n * 10 ^ k := by exact_mod_cast h
    have hpos : (0 : ℤ) < 10 ^ k := by positivity
    rcases le_or_gt 0 d.mant with hm | hm
    · rw [Int.tdiv_eq_ediv_of_nonneg hm]
      exact Int.ediv_le_of_le_mul hpos hwhole
    · obtain ⟨a, ha⟩ : ∃ a, d.mant = -a := ⟨-d.mant, by ring⟩
      rw [ha, Int.neg_tdiv, Int.tdiv_eq_ediv_of_nonneg (by omega)]
      have hle : -n ≤ a / 10 ^ k := by
        rw [Int.le_ediv_iff_mul_le hpos]
        rw [ha] at hwhole
        linarith
      omega

theorem toInteger_le {y : JsNumber} {n k : ℤ} (h : y.le (n : JsNumber) = true)
    (hk : toInteger y = some k) : k ≤ n := by
  cases y with
  | finite d =>
    cases hk
    refine truncate_le ?_
    have hle := JsNumber.finite_le.1 h
    rwa [Decimal.intCast_toRat] at hle
  | infinity | nan => cases hk

section

variable {ar : Arithmetic} {now t : ℤ} {amount x : JsNumber} {unit : RelativeUnit}

/-- The hour of the day. -/
def hourOf (now : ℤ) : ℤ := now % dayMs / hourMs

theorem hourOf_bounds (now : ℤ) : 0 ≤ hourOf now ∧ hourOf now ≤ 31 := by
  simp only [hourOf, dayMs, hourMs]
  omega

theorem resolve_some (h : (resolveWindow ar (.relative amount unit) now).fromMs = (t : JsNumber)) :
    |now| ≤ maxTime ∧ unitsBack ar now amount unit = some t := by
  simp only [resolveWindow] at h
  by_cases hnow : |now| ≤ maxTime
  · have hclip : clip now = some now := if_pos hnow
    rw [hclip, Option.bind_some] at h
    refine ⟨hnow, ?_⟩
    cases hback : unitsBack ar now amount unit with
    | none =>
      rw [hback] at h
      cases h
    | some s =>
      rw [hback] at h
      exact congrArg some (JsNumber.intCast_inj.1 h)
  · have hclip : clip now = none := if_neg hnow
    rw [hclip] at h
    cases h

theorem hours_some (h : unitsBack ar now amount .hour = some t) :
    ∃ k, toInteger (ar.sub (hourOf now) amount) = some k ∧
      t = now - (hourOf now - k) * hourMs ∧ |t| ≤ maxTime := by
  simp only [unitsBack, Option.bind_eq_bind, Option.bind_eq_some_iff] at h
  obtain ⟨k, hk, ht⟩ := h
  rw [clip] at ht
  split_ifs at ht with hdate
  cases ht
  refine ⟨k, hk, ?_, hdate⟩
  simp only [hourOf, hourMs, dayMs]
  omega

theorem days_some (h : unitsBack.daysBack ar now x = some t) :
    ∃ k, toInteger (ar.sub (dayOfMonth now) x) = some k ∧
      t = now - (dayOfMonth now - k) * dayMs ∧ |t| ≤ maxTime := by
  simp only [unitsBack.daysBack, Option.bind_eq_bind, Option.bind_eq_some_iff] at h
  obtain ⟨k, hk, ht⟩ := h
  obtain ⟨hm, -, -⟩ := monthFromDay_spec (now / dayMs)
  have hfirst : monthStart (yearFromDay (now / dayMs)) (monthFromDay (now / dayMs)) =
      now / dayMs - dayOfMonth now + 1 := by
    rw [dayOfMonth, monthIndex, monthEdge_eq _ hm]
    ring
  rw [clip] at ht
  split_ifs at ht with hdate
  cases ht
  rw [hfirst] at hk ⊢
  have hdate' : now / dayMs - (now / dayMs - dayOfMonth now + 1) + 1 = dayOfMonth now := by ring
  rw [hdate'] at hk
  refine ⟨k, hk, ?_, hfirst ▸ hdate⟩
  simp only [dayMs]
  omega

theorem unitsBack_date (h : unitsBack ar now amount unit = some t) : |t| ≤ maxTime := by
  cases unit with
  | hour =>
    obtain ⟨k, -, -, hdate⟩ := hours_some h
    exact hdate
  | day | week =>
    obtain ⟨k, -, -, hdate⟩ := days_some h
    exact hdate
  | month =>
    obtain ⟨k, -, -, hdate⟩ := minusMonths_some h
    exact hdate

section

variable (hc : Calculates ar)

include hc

/-- So large an amount leaves the dates. -/
theorem large_amount {p k : ℤ} (hp : 0 ≤ p) (hp' : p ≤ 31)
    (hx : JsNumber.le ((2 ^ 49 : ℤ) : JsNumber) x = true) (hk : toInteger (ar.sub p x) = some k) :
    k ≤ p - 2 ^ 49 := by
  have hanti := hc.sub_anti p _ x hx
  rw [hc.sub_whole p (2 ^ 49) (by rw [abs_le]; omega) (by norm_num) (by rw [abs_le]; omega)] at hanti
  exact toInteger_le hanti hk

theorem whole_amount {p k : ℤ} {n : ℕ} (hp : 0 ≤ p) (hp' : p ≤ 31) (hn : n < 2 ^ 49)
    (hk : toInteger (ar.sub p ((n : ℤ) : JsNumber)) = some k) : k = p - n := by
  rw [hc.sub_whole p n (by rw [abs_le]; omega) (by rw [abs_le]; omega) (by rw [abs_le]; omega),
    toInteger_intCast] at hk
  exact (Option.some.inj hk).symm

/-- The number of units of a window that starts on a date is exact. -/
theorem position_whole {p k u : ℤ} {n : ℕ} (hp : 0 ≤ p) (hp' : p ≤ 31)
    (hx : n < 2 ^ 49 → x = ((n : ℤ) : JsNumber))
    (hlarge : 2 ^ 49 ≤ n → JsNumber.le ((2 ^ 49 : ℤ) : JsNumber) x = true)
    (hk : toInteger (ar.sub p x) = some k) (hu : hourMs ≤ u) (hnow : |now| ≤ maxTime)
    (ht : t = now - (p - k) * u) (hdate : |t| ≤ maxTime) : now - t = n * u := by
  rcases lt_or_ge n (2 ^ 49) with hn | hn
  · rw [hx hn] at hk
    rw [ht, whole_amount hc hp hp' hn hk]
    ring
  · have hfar := large_amount hc hp hp' (hlarge hn) hk
    rw [abs_le] at hnow hdate
    have hmul : 2 ^ 49 * hourMs ≤ (p - k) * u := by
      have hcount : 2 ^ 49 ≤ p - k := by omega
      have hhour : (0 : ℤ) ≤ hourMs := by decide
      exact mul_le_mul hcount hu hhour (by omega)
    simp only [maxTime, hourMs] at *
    omega

theorem hours_whole {n : ℕ} (hnow : |now| ≤ maxTime)
    (h : unitsBack ar now ((n : ℤ) : JsNumber) .hour = some t) : now - t = n * hourMs := by
  obtain ⟨k, hk, ht, hdate⟩ := hours_some h
  obtain ⟨hp, hp'⟩ := hourOf_bounds now
  refine position_whole hc hp hp' (fun _ ↦ rfl) (fun hn ↦ ?_) hk le_rfl hnow ht hdate
  rw [JsNumber.intCast_le]
  exact decide_eq_true (by exact_mod_cast hn)

theorem days_whole {n : ℕ} (hnow : |now| ≤ maxTime)
    (h : unitsBack ar now ((n : ℤ) : JsNumber) .day = some t) : now - t = n * dayMs := by
  obtain ⟨k, hk, ht, hdate⟩ := days_some h
  obtain ⟨hp, hp'⟩ := dayOfMonth_bounds now
  refine position_whole hc (by omega) hp' (fun _ ↦ rfl) (fun hn ↦ ?_) hk (by decide) hnow ht hdate
  rw [JsNumber.intCast_le]
  exact decide_eq_true (by exact_mod_cast hn)

theorem weeks_whole {n : ℕ} (hnow : |now| ≤ maxTime)
    (h : unitsBack ar now ((n : ℤ) : JsNumber) .week = some t) : now - t = n * (7 * dayMs) := by
  obtain ⟨k, hk, ht, hdate⟩ := days_some h
  obtain ⟨hp, hp'⟩ := dayOfMonth_bounds now
  have hweeks : now - t = (7 * n : ℕ) * dayMs := by
    refine position_whole hc (by omega) hp' (fun hn ↦ ?_) (fun hn ↦ ?_) hk (by decide) hnow ht hdate
    · rw [hc.mul_whole n 7 (n * 7) 0 (by ring) (by rw [abs_le]; omega) (by decide)]
      push_cast
      rw [mul_comm]
    · rcases lt_or_ge n (2 ^ 47) with hsmall | hlarge
      · rw [hc.mul_whole n 7 (n * 7) 0 (by ring) (by rw [abs_le]; omega) (by decide),
          JsNumber.intCast_le]
        exact decide_eq_true (by omega)
      · have hle : JsNumber.le ((2 ^ 47 : ℤ) : JsNumber) ((n : ℤ) : JsNumber) = true := by
          rw [JsNumber.intCast_le]
          exact decide_eq_true (by exact_mod_cast hlarge)
        have hmono := hc.mul_mono _ _ 7 hle (by decide)
        rw [hc.mul_whole (2 ^ 47) 7 7 47 (by norm_num) (by norm_num) (by decide)] at hmono
        refine JsNumber.le_trans_finite ?_ hmono
        rw [JsNumber.intCast_le]
        decide
  rw [hweeks]
  push_cast
  ring

theorem months_whole {n : ℕ} (hnow : |now| ≤ maxTime)
    (hyear : (monthIndex now - n) / 12 ≠ 0)
    (h : unitsBack ar now ((n : ℤ) : JsNumber) .month = some t) : MonthsBack n now t := by
  obtain ⟨k, hk, ht, hdate⟩ := minusMonths_some h
  obtain ⟨hm, -, -⟩ := monthFromDay_spec (now / dayMs)
  rcases lt_or_ge n (2 ^ 49) with hn | hn
  · exact monthsBack_of_some (whole_amount hc (by omega) (by omega) hn hk) hyear ht
  · have hlarge : JsNumber.le ((2 ^ 49 : ℤ) : JsNumber) ((n : ℤ) : JsNumber) = true := by
      rw [JsNumber.intCast_le]
      exact decide_eq_true (by exact_mod_cast hn)
    have hfar := large_amount hc (by omega) (by omega) hlarge hk
    obtain ⟨far, hcount⟩ : ∃ far : ℕ, k = monthFromDay (now / dayMs) - far :=
      ⟨(monthFromDay (now / dayMs) - k).toNat, by omega⟩
    have hapart := (months_apart hcount ht).1
    rw [abs_le] at hnow hdate
    simp only [maxTime, dayMs] at *
    omega

/-- A product that a double holds although it is long. -/
theorem span_whole {n : ℕ} {u m : ℤ} {e : ℕ} (hu : u = m * 2 ^ e) (hsmall : |n * m| ≤ 2 ^ 53)
    (he : e ≤ 900) : ar.mul ((n : ℤ) : JsNumber) u = ((n * u : ℤ) : JsNumber) :=
  hc.mul_whole n u (n * m) e (by rw [hu, mul_assoc]) hsmall he

end

/-- What a window that starts on a date is. -/
structure Resolves (ar : Arithmetic) (n : ℕ) (unit : RelativeUnit) (now t : ℤ) : Prop where
  starts : t < now
  within : ∃ span : ℤ, (Window.relative ((n : ℤ) : JsNumber) unit).maximumSpan ar = (span : JsNumber) ∧
    now - t ≤ span
  fixed : ∀ u, stepMillis unit = some u → now - t = n * u
  months : unit = .month → MonthsBack n now t

theorem resolves (hc : Calculates ar) {n : ℕ} (hn : 0 < n)
    (h : (resolveWindow ar (.relative ((n : ℤ) : JsNumber) unit) now).fromMs = (t : JsNumber))
    (hyear : unit = .month → (monthIndex now - n) / 12 ≠ 0) : Resolves ar n unit now t := by
  obtain ⟨hnow, hback⟩ := resolve_some h
  have hdate := unitsBack_date hback
  rw [abs_le] at hdate
  have hnow' := abs_le.1 hnow
  have hpos : (0 : ℤ) < n := by exact_mod_cast hn
  cases unit with
  | hour =>
    have hlength := hours_whole hc hnow hback
    have hspan : ar.mul ((n : ℤ) : JsNumber) hourMs = ((n * hourMs : ℤ) : JsNumber) := by
      refine @span_whole ar hc n hourMs 28125 7 (by decide) ?_ (by decide)
      rw [abs_le]
      simp only [hourMs, maxTime] at *
      omega
    refine ⟨?_, ⟨_, hspan, hlength.le⟩, fun u hu ↦ ?_, fun hunit ↦ by cases hunit⟩
    · simp only [hourMs] at hlength
      omega
    · cases hu
      exact hlength
  | day =>
    have hlength := days_whole hc hnow hback
    have hspan : ar.mul ((n : ℤ) : JsNumber) dayMs = ((n * dayMs : ℤ) : JsNumber) := by
      refine @span_whole ar hc n dayMs 84375 10 (by decide) ?_ (by decide)
      rw [abs_le]
      simp only [dayMs, maxTime] at *
      omega
    refine ⟨?_, ⟨_, hspan, hlength.le⟩, fun u hu ↦ ?_, fun hunit ↦ by cases hunit⟩
    · simp only [dayMs] at hlength
      omega
    · cases hu
      exact hlength
  | week =>
    have hlength := weeks_whole hc hnow hback
    have hweeks : ar.mul ((n : ℤ) : JsNumber) (7 : ℤ) = (((7 * n : ℕ) : ℤ) : JsNumber) := by
      rw [hc.mul_whole n 7 (n * 7) 0 (by ring) (by
        rw [abs_le]
        simp only [dayMs, maxTime] at *
        omega) (by decide)]
      push_cast
      rw [mul_comm]
    have hspan : ar.mul (((7 * n : ℕ) : ℤ) : JsNumber) dayMs =
        (((7 * n : ℕ) * dayMs : ℤ) : JsNumber) := by
      refine @span_whole ar hc (7 * n) dayMs 84375 10 (by decide) ?_ (by decide)
      rw [abs_le]
      simp only [dayMs, maxTime] at *
      push_cast
      omega
    have hmax : (Window.relative ((n : ℤ) : JsNumber) .week).maximumSpan ar =
        (((7 * n : ℕ) * dayMs : ℤ) : JsNumber) := by
      rw [← hspan, ← hweeks]
      rfl
    refine ⟨?_, ⟨_, hmax, ?_⟩, fun u hu ↦ ?_, fun hunit ↦ by cases hunit⟩
    · simp only [dayMs] at hlength
      omega
    · rw [hlength]
      push_cast
      linarith
    · cases hu
      exact hlength
  | month =>
    have hmonths := months_whole hc hnow (hyear rfl) hback
    obtain ⟨hlow, hhigh⟩ := hmonths.length hn
    have hspan : ar.mul ((n : ℤ) : JsNumber) ((31 * dayMs : ℤ) : JsNumber) =
        ((n * (31 * dayMs) : ℤ) : JsNumber) := by
      refine @span_whole ar hc n (31 * dayMs) (31 * 84375) 10 (by decide) ?_ (by decide)
      rw [abs_le]
      simp only [dayMs, maxTime] at *
      omega
    refine ⟨?_, ⟨_, hspan, ?_⟩, fun u hu ↦ ?_, fun _ ↦ hmonths⟩
    · simp only [dayMs] at hlow
      omega
    · linarith
    · cases hu

theorem resolve_of_some (hnow : |now| ≤ maxTime) (h : unitsBack ar now amount unit = some t) :
    (resolveWindow ar (.relative amount unit) now).fromMs = (t : JsNumber) := by
  have hclip : clip now = some now := if_pos hnow
  simp only [resolveWindow, hclip, Option.bind_some, h]

section

variable (hc : Calculates ar)

include hc

theorem position_exact {p : ℤ} {n : ℕ} (hp : 0 ≤ p) (hp' : p ≤ 31) (hn : n < 2 ^ 49) :
    toInteger (ar.sub p ((n : ℤ) : JsNumber)) = some (p - n) := by
  rw [hc.sub_whole p n (by rw [abs_le]; omega) (by rw [abs_le]; omega) (by rw [abs_le]; omega),
    toInteger_intCast]

theorem daysBack_exact {n : ℕ} (hn : n < 2 ^ 49) :
    unitsBack.daysBack ar now ((n : ℤ) : JsNumber) = clip (now - n * dayMs) := by
  obtain ⟨hp, hp'⟩ := dayOfMonth_bounds now
  obtain ⟨hm, -, -⟩ := monthFromDay_spec (now / dayMs)
  have hdate : now / dayMs - monthStart (yearFromDay (now / dayMs)) (monthFromDay (now / dayMs)) + 1 =
      dayOfMonth now := by
    rw [dayOfMonth, monthIndex, monthEdge_eq _ hm]
  have hexact := position_exact hc (by omega) hp' hn
  simp only [unitsBack.daysBack, hdate, Option.bind_eq_bind]
  rw [hexact, Option.bind_some]
  congr 1
  simp only [dayMs] at *
  omega

theorem minusMonths_exact {n : ℕ} (hn : n < 2 ^ 49) (hnow : |now| ≤ maxTime)
    (hfar : n * (31 * dayMs) + 62 * dayMs ≤ now + maxTime) :
    ∃ t, minusMonths ar now ((n : ℤ) : JsNumber) = some t := by
  obtain ⟨hm, -, -⟩ := monthFromDay_spec (now / dayMs)
  have hp := dayOfMonth_bounds now
  have hfirst : monthStart (yearFromDay (now / dayMs)) (monthFromDay (now / dayMs)) =
      now / dayMs - dayOfMonth now + 1 := by
    rw [dayOfMonth, monthIndex, monthEdge_eq _ hm]
    ring
  have hexact := position_exact hc (p := monthFromDay (now / dayMs)) (by omega) (by omega) hn
  generalize hk : (monthFromDay (now / dayMs) : ℤ) - n = k at hexact
  obtain ⟨hm', hindex⟩ := month_of_months (yearFromDay (now / dayMs)) k
  have htarget : 12 * yearFromDay (now / dayMs) + k = monthIndex now - n := by
    rw [monthIndex, ← hk]
    ring
  have hstart : monthStart (yearFromDay (now / dayMs) + k / 12) (k % 12).toNat =
      monthEdge (monthIndex now - n) := by
    rw [← htarget, ← hindex, monthEdge_eq _ hm']
  have hback := monthEdge_back (monthIndex now) n
  have hdom : dayOfMonth now = now / dayMs - monthEdge (monthIndex now) + 1 := rfl
  have hlength := daysInMonth_ge (yearFromDay (now / dayMs) + k / 12) hm'
  simp only [minusMonths, hfirst, hexact, hstart, Option.bind_eq_bind, Option.bind_some]
  generalize daysInMonth (yearFromDay (now / dayMs) + k / 12) (k % 12).toNat = d at *
  rw [abs_le] at hnow
  have hfits {t : ℤ} (hlow : -maxTime ≤ t) (hhigh : t ≤ maxTime) : clip t = some t :=
    if_pos (abs_le.2 ⟨hlow, hhigh⟩)
  simp only [dayMs] at *
  rw [hfits (by omega) (by omega), Option.bind_some, hfits (by omega) (by omega),
    Option.bind_some]
  exact ⟨_, hfits (by omega) (by omega)⟩

/-- A window that does not reach past the first date starts on one. -/
theorem starts_on_date {n : ℕ} (hnow : |now| ≤ maxTime)
    (hfar : n * (stepMillis unit).getD (31 * dayMs) + 62 * dayMs ≤ now + maxTime) :
    ∃ t : ℤ, (resolveWindow ar (.relative ((n : ℤ) : JsNumber) unit) now).fromMs = (t : JsNumber) := by
  have hnow' := abs_le.1 hnow
  have hfits {t : ℤ} (hlow : -maxTime ≤ t) (hhigh : t ≤ now) : clip t = some t :=
    if_pos (abs_le.2 ⟨hlow, by omega⟩)
  cases unit with
  | hour =>
    change (n * 3600000 + 62 * 86400000 : ℤ) ≤ now + maxTime at hfar
    simp only [maxTime] at hfar hnow'
    obtain ⟨hp, hp'⟩ := hourOf_bounds now
    have hexact := position_exact hc (n := n) hp hp' (by omega)
    refine ⟨now - n * hourMs, resolve_of_some hnow ?_⟩
    rw [← hfits (by simp only [hourMs, maxTime]; omega) (by simp only [hourMs]; omega)]
    simp only [unitsBack, Option.bind_eq_bind]
    rw [← hourOf, hexact, Option.bind_some]
    congr 1
    simp only [hourOf, hourMs, dayMs]
    omega
  | day =>
    change (n * 86400000 + 62 * 86400000 : ℤ) ≤ now + maxTime at hfar
    simp only [maxTime] at hfar hnow'
    refine ⟨now - n * dayMs, resolve_of_some hnow ?_⟩
    rw [unitsBack, daysBack_exact hc (by omega)]
    exact hfits (by simp only [dayMs, maxTime]; omega) (by simp only [dayMs]; omega)
  | week =>
    change (n * (7 * 86400000) + 62 * 86400000 : ℤ) ≤ now + maxTime at hfar
    simp only [maxTime] at hfar hnow'
    have hweeks : ar.mul ((n : ℤ) : JsNumber) (7 : ℤ) = (((7 * n : ℕ) : ℤ) : JsNumber) := by
      rw [hc.mul_whole n 7 (n * 7) 0 (by ring) (by rw [abs_le]; omega) (by decide)]
      push_cast
      rw [mul_comm]
    refine ⟨now - (7 * n : ℕ) * dayMs, resolve_of_some hnow ?_⟩
    rw [unitsBack, hweeks, daysBack_exact hc (by omega)]
    exact hfits (by simp only [dayMs, maxTime]; omega) (by simp only [dayMs]; omega)
  | month =>
    change (n * (31 * 86400000) + 62 * 86400000 : ℤ) ≤ now + maxTime at hfar
    have hn : n < 2 ^ 49 := by
      simp only [maxTime] at hfar hnow'
      omega
    obtain ⟨t, ht⟩ := minusMonths_exact hc hn hnow hfar
    exact ⟨t, resolve_of_some hnow ht⟩

end

/-- The window before ends where the window starts, and goes back as far again. -/
theorem previousWindow_whole (ar : Arithmetic) {n : ℕ}
    (h : (resolveWindow ar (.relative ((n : ℤ) : JsNumber) unit) now).fromMs = (t : JsNumber)) :
    previousWindow ar (.relative ((n : ℤ) : JsNumber) unit) now =
      .absolute (resolveWindow ar (.relative ((n : ℤ) : JsNumber) unit) t).fromMs t := by
  simp only [previousWindow, h, JsNumber.whole_intCast, Option.map_some, Option.getD_some]

section

variable (hc : Calculates ar)

include hc

/-- An amount whose span is within the limit is below any number whose span is not. -/
theorem amount_lt {c n : ℤ} (hx : x ≠ .nan) (hpos : 0 < c)
    (hmax : JsNumber.lt maxWindow (ar.mul x c) = false) (hbig : maxWindow < n * c)
    (hsmall : |n * c| ≤ 2 ^ 53) : x.lt n = true := by
  by_contra hlt
  have hle := JsNumber.le_of_lt_false hx (by intro h; cases h) (Bool.not_eq_true _ ▸ hlt)
  have hmono := hc.mul_mono _ _ c hle hpos
  rw [hc.mul_whole n c (n * c) 0 (by ring) hsmall (by decide)] at hmono
  have hover : JsNumber.lt (maxWindow : JsNumber) ((n * c : ℤ) : JsNumber) = true := by
    rw [JsNumber.intCast_lt]
    exact decide_eq_true hbig
  rw [JsNumber.lt_of_lt_of_le hover hmono] at hmax
  cases hmax

theorem position_ne_nan {p k : ℤ} (hk : toInteger (ar.sub p x) = some k) : x ≠ .nan := by
  rintro rfl
  rw [hc.nan_sub] at hk
  cases hk

theorem position_gt {p k n : ℤ} (hp : 0 ≤ p) (hpn : p < n) (hn : n ≤ 2 ^ 53) (hx : x.lt n = true)
    (hk : toInteger (ar.sub p x) = some k) : p - n < k :=
  toInteger_gt (by omega) (hc.sub_lt x p n hp hpn.le hn hx) hk

theorem position_le {p k : ℤ} (hp : |p| ≤ 2 ^ 53) (hpos : x.le (0 : ℤ) = false) (hx : x ≠ .nan)
    (hk : toInteger (ar.sub p x) = some k) : k ≤ p := by
  have hlt : x.lt (0 : ℤ) = false := by
    rw [JsNumber.le, Bool.or_eq_false_iff] at hpos
    exact hpos.1
  have hle := JsNumber.le_of_lt_false hx (by intro h; cases h) hlt
  have hanti := hc.sub_anti p _ x hle
  rw [hc.sub_whole p 0 hp (by norm_num) (by rwa [sub_zero]), sub_zero] at hanti
  exact toInteger_le hanti hk

/-- A window within the limit is no longer than the limit, whatever its months are. -/
theorem length_le_maxWindow (hmax : JsNumber.lt maxWindow
      ((Window.relative amount unit).maximumSpan ar) = false) (hpos : amount.le (0 : ℤ) = false)
    (h : (resolveWindow ar (.relative amount unit) now).fromMs = (t : JsNumber)) :
    now - t ≤ maxWindow := by
  obtain ⟨hnow, hback⟩ := resolve_some h
  cases unit with
  | hour =>
    obtain ⟨k, hk, rfl, -⟩ := hours_some hback
    obtain ⟨hp, hp'⟩ := hourOf_bounds now
    have hlt := amount_lt hc (position_ne_nan hc hk) (by decide) hmax
      (n := 17521) (by decide) (by decide)
    have hgt := position_gt hc hp (by omega) (by norm_num) hlt hk
    simp only [maxWindow, dayMs, hourMs]
    omega
  | day =>
    obtain ⟨k, hk, rfl, -⟩ := days_some hback
    obtain ⟨hp, hp'⟩ := dayOfMonth_bounds now
    have hlt := amount_lt hc (position_ne_nan hc hk) (by decide) hmax
      (n := 731) (by decide) (by decide)
    have hgt := position_gt hc (by omega) (by omega) (by norm_num) hlt hk
    simp only [maxWindow, dayMs]
    omega
  | week =>
    obtain ⟨k, hk, rfl, -⟩ := days_some hback
    obtain ⟨hp, hp'⟩ := dayOfMonth_bounds now
    have hlt := amount_lt hc (position_ne_nan hc hk) (by decide) hmax
      (n := 731) (by decide) (by decide)
    have hgt := position_gt hc (by omega) (by omega) (by norm_num) hlt hk
    simp only [maxWindow, dayMs]
    omega
  | month =>
    obtain ⟨k, hk, ht, -⟩ := minusMonths_some hback
    obtain ⟨hm, -, -⟩ := monthFromDay_spec (now / dayMs)
    have hlt := amount_lt hc (position_ne_nan hc hk) (by decide) hmax
      (n := 24) (by decide) (by decide)
    have hgt := position_gt hc (by omega) (by omega) (by norm_num) hlt hk
    have hle := position_le hc (by rw [abs_le]; omega) hpos (position_ne_nan hc hk) hk
    obtain ⟨n, hn⟩ : ∃ n : ℕ, k = monthFromDay (now / dayMs) - n :=
      ⟨(monthFromDay (now / dayMs) - k).toNat, by omega⟩
    have hapart := (months_apart hn ht).2
    have hmonths : n ≤ 23 := by omega
    simp only [maxWindow, dayMs] at *
    omega

end

end

/-- Decimal arithmetic without rounding, the infinities kept. -/
def unrounded : Arithmetic where
  toRuntime := nodeRuntime
  sub
    | .finite a, .finite b => .finite (a.sub b)
    | .finite _, .infinity n => .infinity (!n)
    | .infinity n, .finite _ => .infinity n
    | _, _ => .nan
  mul
    | .finite a, .finite b => .finite (.scaled (a.mant * b.mant) (a.exp + b.exp))
    | .infinity n, .finite b => if 0 < b.mant then .infinity n else .nan
    | _, _ => .nan
  div := nodeArithmetic.div

theorem unrounded_sub (a b : ℤ) : unrounded.sub a b = ((a - b : ℤ) : JsNumber) := by
  refine congrArg JsNumber.finite (Decimal.toRat_injective ?_)
  rw [Decimal.sub_toRat, Decimal.intCast_toRat, Decimal.intCast_toRat, Decimal.intCast_toRat,
    Int.cast_sub]

theorem product_toRat (a b : Decimal) :
    (Decimal.scaled (a.mant * b.mant) (a.exp + b.exp)).toRat = a.toRat * b.toRat := by
  rw [Decimal.scaled_toRat, Decimal.toRat, Decimal.toRat, zpow_add₀ (by norm_num), Int.cast_mul]
  ring

theorem mant_pos {c : ℤ} (hc : 0 < c) : 0 < (c : Decimal).mant := by
  have hval := Decimal.intCast_toRat c
  have hpos : (0 : ℚ) < c := by exact_mod_cast hc
  rw [← hval, Decimal.toRat] at hpos
  exact_mod_cast pos_of_mul_pos_left hpos (by positivity)

theorem unrounded_calculates : Calculates unrounded where
  sub_whole a b _ _ _ := unrounded_sub a b
  sub_anti c a b h := by
    cases a with
    | nan => cases h
    | infinity n => cases b with
      | nan => cases n <;> cases h
      | infinity m => cases n <;> cases m <;> first | rfl | cases h
      | finite b => cases n <;> first | rfl | cases h
    | finite a => cases b with
      | nan => cases h
      | infinity m => cases m <;> first | rfl | cases h
      | finite b =>
        refine JsNumber.finite_le.2 ?_
        rw [Decimal.sub_toRat, Decimal.sub_toRat]
        exact sub_le_sub_left (JsNumber.finite_le.1 h) _
  sub_lt a m n _ _ _ h := by
    cases a with
    | nan => cases h
    | infinity n => cases n <;> first | rfl | cases h
    | finite a =>
      refine (Decimal.lt_iff _ _).2 ?_
      have hlt := (Decimal.lt_iff _ _).1 h
      rw [Decimal.intCast_toRat] at hlt
      rw [Decimal.sub_toRat, Decimal.intCast_toRat, Decimal.intCast_toRat, Int.cast_sub]
      exact sub_lt_sub_left hlt _
  mul_whole a b _ _ _ _ _ := by
    refine congrArg JsNumber.finite (Decimal.toRat_injective ?_)
    rw [product_toRat, Decimal.intCast_toRat, Decimal.intCast_toRat, Decimal.intCast_toRat,
      Int.cast_mul]
  mul_mono a b c h hc := by
    have hinf (n : Bool) : unrounded.mul (.infinity n) (c : JsNumber) = .infinity n :=
      if_pos (mant_pos hc)
    cases a with
    | nan => cases h
    | infinity n => cases b with
      | nan => cases n <;> cases h
      | infinity m =>
        rw [hinf, hinf]
        exact h
      | finite b =>
        rw [hinf]
        cases n <;> first | rfl | cases h
    | finite a => cases b with
      | nan => cases h
      | infinity m =>
        rw [hinf]
        cases m <;> first | rfl | cases h
      | finite b =>
        refine JsNumber.finite_le.2 ?_
        rw [product_toRat, product_toRat, Decimal.intCast_toRat]
        exact mul_le_mul_of_nonneg_right (JsNumber.finite_le.1 h) (by exact_mod_cast hc.le)
  nan_sub a := by cases a <;> rfl
  nan_mul a := by cases a <;> rfl

end Counted.Analytics
