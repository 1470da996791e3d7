import Counted.Analytics.Funnel
import Counted.Kernel.Whole

namespace Counted

namespace Analytics

/-- What is used of `-`, `*` and `/` on doubles: they are exact where the result is a small whole
number, and rounding keeps the order. -/
structure Doubles (ar : Arithmetic) : Prop where
  sub_exact : ∀ a b : ℕ, b ≤ a → a ≤ 2 ^ 53 → ar.sub (a : ℤ) (b : ℤ) = ((a - b : ℕ) : ℤ)
  zero_div : ∀ c : ℤ, 0 < c → ar.div (0 : ℤ) c = (0 : ℤ)
  div_self : ∀ c : ℤ, 0 < c → ar.div c c = (1 : ℤ)
  div_mono : ∀ a b c : ℤ, a ≤ b → 0 < c → (ar.div a c).le (ar.div b c) = true
  zero_mul : ∀ c : ℤ, ar.mul (0 : ℤ) c = (0 : ℤ)
  one_mul : ∀ c : ℤ, ar.mul (1 : ℤ) c = c
  mul_mono : ∀ (a b : JsNumber) (c : ℤ), a.le b = true → 0 < c → (ar.mul a c).le (ar.mul b c) = true

def IsRate (n : JsNumber) : Prop :=
  JsNumber.le (0 : ℤ) n = true ∧ n.le (100 : ℤ) = true

/-- The losses between the steps of a funnel. -/
def drops : List ℕ → List ℕ
  | [] => []
  | n :: counts => 0 :: List.zipWith (· - ·) (n :: counts) counts

def numbers (counts : List ℕ) : List JsNumber := counts.map (fun n : ℕ ↦ ((n : ℤ) : JsNumber))

/-- The arithmetic, with another answer for a quotient by zero. -/
def dividingZero (ar : Arithmetic) (z : JsNumber) : Arithmetic :=
  { ar with div := fun a b ↦ if b = (0 : ℤ) then z else ar.div a b }

/-- A summary that can be shown. -/
structure FunnelResult.Sound (r : FunnelResult) (counts : List ℕ) : Prop where
  rates : ∀ s ∈ r.steps, IsRate s.rate ∧ IsRate s.cumulativeRate
  overall : IsRate r.overallRate
  first : ∀ s, r.steps.head? = some s →
    s.rate = (100 : ℤ) ∧ (s.reached ≠ (0 : ℤ) → s.cumulativeRate = (100 : ℤ))
  reached : r.steps.map (·.reached) = numbers counts
  droppedOff : ∃ lost : List ℕ, r.steps.map (·.droppedOff) = numbers lost ∧
    lost.sum + counts.getLastD 0 = counts.headD 0

theorem isRate_zero : IsRate (0 : ℤ) := by
  constructor <;> rw [JsNumber.intCast_le] <;> decide

theorem isRate_hundred : IsRate (100 : ℤ) := by
  constructor <;> rw [JsNumber.intCast_le] <;> decide

namespace Funnel

variable {ar : Arithmetic} {counts : List ℕ}

section

variable (hd : Doubles ar)

include hd

theorem percent_self {n : ℕ} (hn : n ≠ 0) : percent ar (n : ℤ) (n : ℤ) = (100 : ℤ) := by
  have hz : ((n : ℤ) : JsNumber) ≠ (0 : ℤ) := fun h ↦ hn (by exact_mod_cast JsNumber.intCast_inj.1 h)
  rw [percent, if_neg hz, hd.div_self n (by omega), hd.one_mul]

theorem percent_isRate {part whole : ℕ} (h : part ≤ whole) :
    IsRate (percent ar (part : ℤ) (whole : ℤ)) := by
  by_cases hz : whole = 0
  · subst hz
    exact isRate_zero
  · have hpos : (0 : ℤ) < whole := by omega
    have hne : ((whole : ℤ) : JsNumber) ≠ (0 : ℤ) := fun h ↦ hz (by exact_mod_cast JsNumber.intCast_inj.1 h)
    have hlow := hd.div_mono 0 part whole (by omega) hpos
    have hhigh := hd.div_mono part whole whole (by omega) hpos
    rw [hd.zero_div _ hpos] at hlow
    rw [hd.div_self _ hpos] at hhigh
    rw [percent, if_neg hne]
    constructor
    · have hscaled := hd.mul_mono _ _ 100 hlow (by decide)
      rwa [hd.zero_mul] at hscaled
    · have hscaled := hd.mul_mono _ _ 100 hhigh (by decide)
      rwa [hd.one_mul] at hscaled

theorem lost_exact {prev here : ℕ} (h : here ≤ prev) (hprev : prev ≤ 2 ^ 53) :
    atLeastZero (ar.sub (prev : ℤ) (here : ℤ)) = ((prev - here : ℕ) : ℤ) := by
  rw [hd.sub_exact prev here h hprev, atLeastZero, if_neg (by intro h; cases h), JsNumber.intCast_lt]
  split_ifs with hpos
  · rfl
  · have hzero : prev - here = 0 := by
      have hle : prev ≤ here := by simpa using hpos
      omega
    rw [hzero]
    rfl

end

theorem percent_dividingZero (z part whole : JsNumber) :
    percent (dividingZero ar z) part whole = percent ar part whole := by
  rw [percent, percent]
  split_ifs with hz
  · rfl
  · change ar.mul (if whole = (0 : ℤ) then z else ar.div part whole) _ = _
    rw [if_neg hz]

/-- No count is ever divided by zero. -/
theorem summarize_dividingZero (f : Funnel) (counts : List JsNumber) (z : JsNumber) :
    f.summarize (dividingZero ar z) counts = f.summarize ar counts := by
  simp only [summarize, percent_dividingZero]
  rfl

theorem firstRise_eq_none_iff {i : ℕ} :
    firstRise i (numbers counts) = none ↔ counts.Pairwise (· ≥ ·) := by
  rw [← List.isChain_iff_pairwise]
  induction counts generalizing i with
  | nil => simp [numbers, firstRise]
  | cons prev counts ih =>
    cases counts with
    | nil => simp [numbers, firstRise]
    | cons here counts =>
      rw [List.isChain_cons_cons, ← @ih (i + 1)]
      simp only [numbers, List.map_cons, firstRise, JsNumber.intCast_lt]
      split_ifs with h
      · have hlt : prev < here := by simpa using h
        simp [Nat.not_le.2 hlt]
      · have hle : here ≤ prev := by simpa using h
        simp [hle]

/-- What is lost between the steps adds up to what is lost in all. -/
theorem drops_sum (h : counts.Pairwise (· ≥ ·)) :
    (drops counts).sum + counts.getLastD 0 = counts.headD 0 := by
  cases counts with
  | nil => rfl
  | cons n counts =>
    rw [drops, List.sum_cons, zero_add, List.headD_cons]
    induction counts generalizing n with
    | nil => simp
    | cons m counts ih =>
      rw [List.pairwise_cons] at h
      have hle : m ≤ n := h.1 m List.mem_cons_self
      have hrest := ih m h.2
      rw [List.zipWith_cons_cons, List.sum_cons]
      have hlast : (n :: m :: counts).getLastD 0 = (m :: counts).getLastD 0 := rfl
      omega

theorem summarize_ok {f : Funnel} {r : FunnelResult}
    (h : f.summarize ar (numbers counts) = .ok r) :
    counts.length = f.steps.length ∧ counts.Pairwise (· ≥ ·) := by
  rw [summarize] at h
  split_ifs at h with hlen
  have hl : counts.length = f.steps.length := by simpa [numbers] using hlen
  cases hrise : firstRise 1 (numbers counts) with
  | none => exact ⟨hl, firstRise_eq_none_iff.1 hrise⟩
  | some e =>
    rw [hrise] at h
    cases h

theorem summarize_accepts (ar : Arithmetic) {f : Funnel} (hlen : counts.length = f.steps.length)
    (h : counts.Pairwise (· ≥ ·)) : ∃ r, f.summarize ar (numbers counts) = .ok r := by
  have hl : (numbers counts).length = f.steps.length := by rw [numbers, List.length_map, hlen]
  rw [summarize, if_neg (not_not.2 hl), firstRise_eq_none_iff.2 h]
  exact ⟨_, rfl⟩

theorem numbers_getD (i : ℕ) : (numbers counts).getD i (0 : ℤ) = ((counts.getD i 0 : ℕ) : ℤ) := by
  rw [numbers, List.getD_eq_getElem?_getD, List.getElem?_map, List.getD_eq_getElem?_getD]
  cases counts[i]? <;> rfl

theorem summarize_step {f : Funnel} {r : FunnelResult} {s : FunnelStepResult} {i : ℕ}
    (h : f.summarize ar (numbers counts) = .ok r) (hs : r.steps[i]? = some s) :
    ∃ n, counts[i]? = some n ∧ s.reached = (n : ℤ) ∧
      s.rate = (if i = 0 then ((100 : ℤ) : JsNumber)
        else percent ar (n : ℤ) ((counts.getD (i - 1) 0 : ℕ) : ℤ)) ∧
      s.cumulativeRate = percent ar (n : ℤ) ((counts.headD 0 : ℕ) : ℤ) ∧
      s.droppedOff = (if i = 0 then ((0 : ℤ) : JsNumber)
        else atLeastZero (ar.sub ((counts.getD (i - 1) 0 : ℕ) : ℤ) (n : ℤ))) := by
  obtain ⟨hlen, hdown⟩ := summarize_ok h
  have hl : (numbers counts).length = f.steps.length := by rw [numbers, List.length_map, hlen]
  rw [summarize, if_neg (not_not.2 hl), firstRise_eq_none_iff.2 hdown] at h
  cases h
  rw [List.getElem?_map, List.getElem?_zipIdx, Option.map_map, Option.map_eq_some_iff] at hs
  obtain ⟨⟨reached, st⟩, hzip, rfl⟩ := hs
  obtain ⟨hreached, -⟩ := List.getElem?_zip_eq_some.1 hzip
  rw [numbers, List.getElem?_map, Option.map_eq_some_iff] at hreached
  obtain ⟨n, hn, rfl⟩ := hreached
  have hfirst : (numbers counts).headD (0 : ℤ) = ((counts.headD 0 : ℕ) : ℤ) := by
    cases counts <;> rfl
  refine ⟨n, hn, rfl, ?_, ?_, ?_⟩
  · simp only [Function.comp_apply, zero_add, numbers_getD]
    split_ifs <;> rfl
  · rw [← hfirst]
    rfl
  · simp only [Function.comp_apply, zero_add, numbers_getD]
    split_ifs <;> rfl

theorem summarize_length {f : Funnel} {r : FunnelResult}
    (h : f.summarize ar (numbers counts) = .ok r) : r.steps.length = counts.length := by
  obtain ⟨hlen, hdown⟩ := summarize_ok h
  have hl : (numbers counts).length = f.steps.length := by rw [numbers, List.length_map, hlen]
  rw [summarize, if_neg (not_not.2 hl), firstRise_eq_none_iff.2 hdown] at h
  cases h
  rw [List.length_map, List.length_zipIdx, List.length_zip, hl, min_self, hlen]

theorem summarize_overall {f : Funnel} {r : FunnelResult}
    (h : f.summarize ar (numbers counts) = .ok r) :
    r.overallRate = percent ar ((counts.getLastD 0 : ℕ) : ℤ) ((counts.headD 0 : ℕ) : ℤ) := by
  obtain ⟨hlen, hdown⟩ := summarize_ok h
  have hl : (numbers counts).length = f.steps.length := by rw [numbers, List.length_map, hlen]
  rw [summarize, if_neg (not_not.2 hl), firstRise_eq_none_iff.2 hdown] at h
  cases h
  have hfirst : (numbers counts).headD (0 : ℤ) = ((counts.headD 0 : ℕ) : ℤ) := by
    cases counts <;> rfl
  have hlast : (numbers counts).getLastD (0 : ℤ) = ((counts.getLastD 0 : ℕ) : ℤ) := by
    rw [numbers, List.getLastD_eq_getLast?, List.getLast?_map, List.getLastD_eq_getLast?]
    cases counts.getLast? <;> rfl
  rw [← hfirst, ← hlast]

/-- A column of a summary is a list of counts when every step of it is. -/
theorem summarize_column {f : Funnel} {r : FunnelResult} {g : FunnelStepResult → JsNumber}
    {l : List ℕ} (h : f.summarize ar (numbers counts) = .ok r) (hl : l.length = counts.length)
    (hg : ∀ (i : ℕ) s, r.steps[i]? = some s → ∃ n : ℕ, l[i]? = some n ∧ g s = (n : ℤ)) :
    r.steps.map g = numbers l := by
  have hlen := summarize_length h
  refine List.ext_getElem? (fun i ↦ ?_)
  rw [List.getElem?_map, numbers, List.getElem?_map]
  cases hs : r.steps[i]? with
  | none =>
    have hi := List.getElem?_eq_none_iff.1 hs
    rw [List.getElem?_eq_none (by omega)]
    rfl
  | some s =>
    obtain ⟨n, hn, hgs⟩ := hg i s hs
    rw [hn, Option.map_some, Option.map_some, hgs]

theorem drops_length : (drops counts).length = counts.length := by
  cases counts with
  | nil => rfl
  | cons n counts => simp [drops]

theorem drops_getElem? {i n : ℕ} (h : counts[i]? = some n) :
    (drops counts)[i]? = some (if i = 0 then 0 else counts.getD (i - 1) 0 - n) := by
  cases counts with
  | nil => cases h
  | cons m counts =>
    cases i with
    | zero => rfl
    | succ i =>
      rw [List.getElem?_cons_succ] at h
      have hi := (List.getElem?_eq_some_iff.1 h).1
      have hprev : (m :: counts)[i]? = some ((m :: counts).getD i 0) := by
        rw [List.getD_eq_getElem?_getD, List.getElem?_eq_getElem (by simp; omega)]
        rfl
      rw [drops, List.getElem?_cons_succ, List.getElem?_zipWith, h, hprev]
      rfl

theorem le_previous {i n : ℕ} (h : counts.Pairwise (· ≥ ·)) (hn : counts[i]? = some n) (hi : i ≠ 0) :
    n ≤ counts.getD (i - 1) 0 ∧ counts.getD (i - 1) 0 ∈ counts := by
  obtain ⟨hlt, rfl⟩ := List.getElem?_eq_some_iff.1 hn
  have hprev : counts.getD (i - 1) 0 = counts[i - 1] := by
    rw [List.getD_eq_getElem?_getD, List.getElem?_eq_getElem (by omega)]
    rfl
  rw [hprev]
  exact ⟨List.pairwise_iff_getElem.1 h (i - 1) i (by omega) hlt (by omega), List.getElem_mem _⟩

theorem le_first {i n : ℕ} (h : counts.Pairwise (· ≥ ·)) (hn : counts[i]? = some n) :
    n ≤ counts.headD 0 := by
  have hmem : n ∈ counts := List.mem_of_getElem? hn
  cases counts with
  | nil => cases hmem
  | cons m counts =>
    rw [List.headD_cons]
    rcases List.mem_cons.1 hmem with rfl | hin
    · exact le_rfl
    · exact (List.pairwise_cons.1 h).1 n hin

/-- What is accepted can be shown: no rate leaves its range, and no loss is missing. -/
theorem summarize_sound (hd : Doubles ar) {f : Funnel} {r : FunnelResult}
    (hsmall : ∀ n ∈ counts, n ≤ 2 ^ 53) (h : f.summarize ar (numbers counts) = .ok r) :
    r.Sound counts where
  rates s hs := by
    obtain ⟨i, hi⟩ := List.getElem?_of_mem hs
    obtain ⟨n, hn, -, hrate, hcumulative, -⟩ := summarize_step h hi
    have hdown := (summarize_ok h).2
    constructor
    · rw [hrate]
      split_ifs with hz
      · exact isRate_hundred
      · exact percent_isRate hd (le_previous hdown hn hz).1
    · rw [hcumulative]
      exact percent_isRate hd (le_first hdown hn)
  overall := by
    rw [summarize_overall h]
    have hsum := drops_sum (summarize_ok h).2
    exact percent_isRate hd (by omega)
  first s hs := by
    rw [List.head?_eq_getElem?] at hs
    obtain ⟨n, hn, hreached, hrate, hcumulative, -⟩ := summarize_step h hs
    refine ⟨hrate, ?_⟩
    intro hne
    have hhead : counts.headD 0 = n := by
      rw [List.headD_eq_head?_getD, List.head?_eq_getElem?, hn]
      rfl
    rw [hcumulative, hhead]
    refine percent_self hd ?_
    rintro rfl
    exact hne hreached
  reached := by
    refine summarize_column h rfl ?_
    intro i s hs
    obtain ⟨n, hn, hreached, -⟩ := summarize_step h hs
    exact ⟨n, hn, hreached⟩
  droppedOff := by
    refine ⟨drops counts, summarize_column h drops_length ?_, drops_sum (summarize_ok h).2⟩
    intro i s hs
    obtain ⟨n, hn, -, -, -, hlost⟩ := summarize_step h hs
    refine ⟨_, drops_getElem? hn, ?_⟩
    rw [hlost]
    split_ifs with hz
    · rfl
    · obtain ⟨hle, hmem⟩ := le_previous (summarize_ok h).2 hn hz
      exact lost_exact hd hle (hsmall _ hmem)

end Funnel

/-- A number to thirty decimal places. -/
def rounded (q : ℚ) : Decimal := .scaled ⌊q * 10 ^ 30⌋ (-30)

/-- Decimal arithmetic, products and quotients to thirty places. -/
def roundedArithmetic : Arithmetic where
  toRuntime := nodeRuntime
  sub := nodeArithmetic.sub
  mul
    | .finite a, .finite b => .finite (rounded (a.toRat * b.toRat))
    | a, _ => a
  div
    | .finite a, .finite b => .finite (rounded (a.toRat / b.toRat))
    | a, _ => a

theorem rounded_toRat (q : ℚ) : (rounded q).toRat = ⌊q * 10 ^ 30⌋ / 10 ^ 30 := by
  rw [rounded, Decimal.scaled_toRat, zpow_neg, div_eq_mul_inv]
  rfl

theorem rounded_intCast (m : ℤ) : rounded m = (m : Decimal) := by
  apply Decimal.toRat_injective
  have hcast : (m : ℚ) * 10 ^ 30 = ((m * 10 ^ 30 : ℤ) : ℚ) := by push_cast; rfl
  rw [rounded_toRat, Decimal.intCast_toRat, hcast, Int.floor_intCast, ← hcast]
  exact mul_div_cancel_right₀ _ (by positivity)

theorem rounded_mono {p q : ℚ} (h : p ≤ q) : (rounded p).toRat ≤ (rounded q).toRat := by
  rw [rounded_toRat, rounded_toRat]
  gcongr

theorem roundedArithmetic_doubles : Doubles roundedArithmetic where
  sub_exact a b hle _ := by
    refine congrArg JsNumber.finite (Decimal.toRat_injective ?_)
    rw [Decimal.sub_toRat, Decimal.intCast_toRat, Decimal.intCast_toRat, Decimal.intCast_toRat]
    push_cast [hle]
    rfl
  zero_div c hc := by
    refine congrArg JsNumber.finite ?_
    rw [Decimal.intCast_toRat, Int.cast_zero, zero_div]
    exact rounded_intCast 0
  div_self c hc := by
    refine congrArg JsNumber.finite ?_
    have hne : (c : ℚ) ≠ 0 := by exact_mod_cast hc.ne'
    rw [Decimal.intCast_toRat, div_self hne]
    exact_mod_cast rounded_intCast 1
  div_mono a b c hab hc := by
    refine JsNumber.finite_le.2 (rounded_mono ?_)
    rw [Decimal.intCast_toRat, Decimal.intCast_toRat, Decimal.intCast_toRat]
    have hpos : (0 : ℚ) < c := by exact_mod_cast hc
    have hle : (a : ℚ) ≤ b := by exact_mod_cast hab
    gcongr
  zero_mul c := by
    refine congrArg JsNumber.finite ?_
    rw [Decimal.intCast_toRat, Int.cast_zero, zero_mul]
    exact rounded_intCast 0
  one_mul c := by
    refine congrArg JsNumber.finite ?_
    rw [Decimal.intCast_toRat, Decimal.intCast_toRat, Int.cast_one, one_mul]
    exact rounded_intCast c
  mul_mono a b c hab hc := by
    have hpos : (0 : ℚ) < c := by exact_mod_cast hc
    cases a with
    | nan => cases hab
    | infinity n => cases b with
      | nan => cases n <;> cases hab
      | infinity m => exact hab
      | finite b => cases n with
        | true => rfl
        | false => cases hab
    | finite a => cases b with
      | nan => cases hab
      | infinity m => cases m with
        | false => rfl
        | true => cases hab
      | finite b =>
        refine JsNumber.finite_le.2 (rounded_mono ?_)
        rw [Decimal.intCast_toRat]
        have hle := JsNumber.finite_le.1 hab
        gcongr

end Analytics

end Counted
