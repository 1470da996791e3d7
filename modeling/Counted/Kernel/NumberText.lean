import Counted.Kernel.Number

namespace Counted

/-- The text of a number with every digit its own unit, read back by place value. -/
def digitsValue (t : JsString) : ℕ := t.foldl (fun a u ↦ 10 * a + (u.toNat - 48)) 0

def IsDigits (t : JsString) : Prop := ∀ u ∈ t, ∃ d < 10, u = digit d

theorem digit_toNat {d : ℕ} (hd : d < 10) : (digit d).toNat = 48 + d := by
  interval_cases d <;> rfl

theorem digitsValue_append (s t : JsString) :
    digitsValue (s ++ t) = digitsValue s * 10 ^ t.length + digitsValue t := by
  have key (a : ℕ) : t.foldl (fun a u ↦ 10 * a + (u.toNat - 48)) a =
      a * 10 ^ t.length + t.foldl (fun a u ↦ 10 * a + (u.toNat - 48)) 0 := by
    induction t using List.reverseRecOn generalizing a with
    | nil => simp
    | append_singleton t u ih =>
      simp only [List.foldl_append, List.foldl_cons, List.foldl_nil]
      rw [ih, List.length_append, List.length_singleton, pow_succ]
      ring
  rw [digitsValue, List.foldl_append, key]
  rfl

theorem zeros_digits (n : ℕ) : IsDigits (zeros n) :=
  fun _ hu ↦ ⟨0, by omega, List.eq_of_mem_replicate hu⟩

@[simp] theorem digitsValue_zeros (n : ℕ) : digitsValue (zeros n) = 0 := by
  induction n with
  | zero => rfl
  | succ n ih => rw [zeros, List.replicate_succ', digitsValue_append, ← zeros, ih]; rfl

theorem natText_digits (n : ℕ) : IsDigits (natText n) := by
  unfold natText
  split
  · exact zeros_digits 1
  · intro u hu
    obtain ⟨d, hd, rfl⟩ := List.mem_map.1 hu
    exact ⟨d, Nat.digits_lt_base (by norm_num) (List.mem_reverse.1 hd), rfl⟩

theorem digitsValue_natText (n : ℕ) : digitsValue (natText n) = n := by
  have key (l : List ℕ) (hl : ∀ d ∈ l, d < 10) :
      digitsValue (l.reverse.map digit) = Nat.ofDigits 10 l := by
    induction l with
    | nil => rfl
    | cons d l ih =>
      have hd := digit_toNat (hl d (by simp))
      rw [List.reverse_cons, List.map_append, digitsValue_append,
        ih (fun e he ↦ hl e (by simp [he])), Nat.ofDigits_cons]
      simp [digitsValue, hd]
      ring
  unfold natText
  split
  · simp_all
  · rw [key _ (fun d hd ↦ Nat.digits_lt_base (by norm_num) hd), Nat.ofDigits_digits]

theorem natText_injective : Function.Injective natText := fun a b h ↦ by
  rw [← digitsValue_natText a, h, digitsValue_natText]

theorem natText_ne_nil (n : ℕ) : natText n ≠ [] := by
  unfold natText
  split
  · simp [zeros]
  · simpa using Nat.digits_ne_nil_iff_ne_zero.2 ‹_›

theorem IsDigits.append {s t : JsString} (hs : IsDigits s) (ht : IsDigits t) :
    IsDigits (s ++ t) := by
  intro u hu
  exact (List.mem_append.1 hu).elim (hs u) (ht u)

theorem IsDigits.sublist {s t : JsString} (ht : IsDigits t) (h : s.Sublist t) : IsDigits s :=
  fun u hu ↦ ht u (h.subset hu)

/-- A digit is none of the marks that structure the text of a number. -/
theorem IsDigits.ne {t : JsString} (ht : IsDigits t) {u : UInt16} (hu : u ∈ t) :
    u ≠ 46 ∧ u ≠ 101 ∧ u ≠ 45 ∧ u ≠ 43 := by
  obtain ⟨d, hd, rfl⟩ := ht u hu
  interval_cases d <;> decide

namespace Decimal

/-- Splits a text at the first occurrence of a mark. -/
def cut (m : UInt16) (t : JsString) : JsString × JsString :=
  (t.takeWhile (· != m), (t.dropWhile (· != m)).drop 1)

theorem cut_append {m : UInt16} {s : JsString} (hs : ∀ u ∈ s, u ≠ m) (t : JsString) :
    cut m (s ++ m :: t) = (s, t) := by
  have h : ∀ u ∈ s, (u != m) = true := fun u hu ↦ by simpa using hs u hu
  simp [cut, List.takeWhile_append_of_pos h, List.dropWhile_append_of_pos h]

theorem cut_of_notMem {m : UInt16} {s : JsString} (hs : ∀ u ∈ s, u ≠ m) :
    cut m s = (s, []) := by
  have h : ∀ u ∈ s, (u != m) = true := fun u hu ↦ by simpa using hs u hu
  simp [cut, List.takeWhile_eq_self_iff.2 h, List.dropWhile_eq_nil_iff.2 h]

/-- The exponent that stands after the `e` of a number's text. -/
def readExponent : JsString → ℤ
  | 43 :: t => digitsValue t
  | 45 :: t => -digitsValue t
  | _ => 0

attribute [local simp] readExponent

/-- The value of the text of a positive number. -/
def readPositive (t : JsString) : ℚ :=
  let (m, e) := cut 101 t
  let (i, f) := cut 46 m
  digitsValue (i ++ f) * (10 : ℚ) ^ (readExponent e - f.length)

theorem readPositive_digits {s : JsString} (hs : IsDigits s) : readPositive s = digitsValue s := by
  simp [readPositive, cut_of_notMem (fun u hu ↦ (hs.ne hu).2.1),
    cut_of_notMem (fun u hu ↦ (hs.ne hu).1), readExponent]

theorem readPositive_point {s t : JsString} (hs : IsDigits s) (ht : IsDigits t) :
    readPositive (s ++ js "." ++ t) = digitsValue (s ++ t) * (10 : ℚ) ^ (-(t.length : ℤ)) := by
  have he : ∀ u ∈ s ++ js "." ++ t, u ≠ 101 := by
    intro u hu
    simp only [List.mem_append, or_assoc] at hu
    rcases hu with hu | hu | hu
    · exact (hs.ne hu).2.1
    · have := List.mem_singleton.1 hu; subst this; decide
    · exact (ht.ne hu).2.1
  have hp : cut 46 (s ++ js "." ++ t) = (s, t) := by
    rw [List.append_assoc]
    exact cut_append (fun u hu ↦ (hs.ne hu).1) t
  simp only [readPositive, cut_of_notMem he, hp]
  simp [readExponent]

theorem readPositive_exponent {m e : JsString} (hm : ∀ u ∈ m, u ≠ 101) :
    readPositive (m ++ 101 :: e) = readPositive m * (10 : ℚ) ^ readExponent e := by
  simp only [readPositive, cut_append hm, cut_of_notMem hm, readExponent]
  rw [mul_assoc, ← zpow_add₀ (by norm_num : (10 : ℚ) ≠ 0)]
  congr 2
  ring

theorem readExponent_sign (pos : Bool) (k : ℕ) :
    readExponent ((if pos then 43 else 45) :: natText k) = if pos then (k : ℤ) else -k := by
  cases pos <;> simp [readExponent, digitsValue_natText]

theorem readPositive_layout {s : JsString} (hs : IsDigits s) (hne : s ≠ []) (n : ℤ) :
    readPositive (layout s n) = digitsValue s * (10 : ℚ) ^ (n - s.length) := by
  have ht : IsDigits (s.take n.toNat) := hs.sublist (List.take_sublist _ _)
  have hd : IsDigits (s.drop n.toNat) := hs.sublist (List.drop_sublist _ _)
  by_cases h₁ : s.length ≤ n ∧ n ≤ 21
  · rw [layout, if_pos h₁, readPositive_digits (hs.append (zeros_digits _)), digitsValue_append,
      digitsValue_zeros, zeros, List.length_replicate, add_zero, Nat.cast_mul, Nat.cast_pow,
      Nat.cast_ofNat, ← zpow_natCast]
    congr 2
    omega
  by_cases h₂ : 0 < n ∧ n ≤ 21
  · rw [layout, if_neg h₁, if_pos h₂, readPositive_point ht hd, List.take_append_drop,
      List.length_drop]
    congr 2
    omega
  by_cases h₃ : -6 < n ∧ n ≤ 0
  · have h := readPositive_point (zeros_digits 1) ((zeros_digits (-n).toNat).append hs)
    rw [layout, if_neg h₁, if_neg h₂, if_pos h₃, show js "0." ++ zeros (-n).toNat ++ s =
      zeros 1 ++ js "." ++ (zeros (-n).toNat ++ s) by simp [js, zeros], h, digitsValue_append,
      digitsValue_append, digitsValue_zeros, digitsValue_zeros, List.length_append, zeros,
      List.length_replicate]
    simp only [zero_mul, zero_add]
    congr 2
    omega
  -- What is left is the scientific form, whose exponent carries its own sign.
  have he : ((if 0 < n then js "e+" else js "e-") ++ natText (n - 1).natAbs : JsString) =
      101 :: (if decide (0 < n) then 43 else 45) :: natText (n - 1).natAbs := by
    by_cases hn : 0 < n <;> simp [hn, js]
  have hn : (if decide (0 < n) then ((n - 1).natAbs : ℤ) else -(n - 1).natAbs) = n - 1 := by
    by_cases hn : 0 < n <;> simp only [hn, decide_true, decide_false, if_true] <;> grind
  rw [layout, if_neg h₁, if_neg h₂, if_neg h₃]
  simp only [he]
  by_cases h₄ : s.length = 1
  · rw [if_pos h₄, readPositive_exponent (fun u hu ↦ (hs.ne hu).2.1), readPositive_digits hs,
      readExponent_sign, hn, h₄]
    rfl
  · have hm : ∀ u ∈ s.take 1 ++ js "." ++ s.drop 1, u ≠ 101 := by
      intro u hu
      simp only [List.mem_append, or_assoc] at hu
      rcases hu with hu | hu | hu
      · exact (hs.ne (List.mem_of_mem_take hu)).2.1
      · have := List.mem_singleton.1 hu; subst this; decide
      · exact (hs.ne (List.mem_of_mem_drop hu)).2.1
    have hl : 0 < s.length := List.length_pos_iff.2 hne
    rw [if_neg h₄, readPositive_exponent hm, readPositive_point
      (hs.sublist (List.take_sublist _ _)) (hs.sublist (List.drop_sublist _ _)),
      List.take_append_drop, readExponent_sign, hn, mul_assoc,
      ← zpow_add₀ (by norm_num : (10 : ℚ) ≠ 0), List.length_drop]
    congr 2
    omega

/-- The text of a positive number does not start with a sign. -/
theorem layout_head {s : JsString} (hs : IsDigits s) (hne : s ≠ []) (n : ℤ) :
    (layout s n).head? ≠ some 45 := by
  obtain ⟨u, t, rfl⟩ := List.exists_cons_of_ne_nil hne
  have hu : u ≠ 45 := (hs.ne List.mem_cons_self).2.2.1
  unfold layout
  split_ifs with h₁ h₂ h₃
  · simpa using hu
  · obtain ⟨k, hk⟩ : ∃ k, n.toNat = k + 1 := ⟨n.toNat - 1, by omega⟩
    simpa [hk] using hu
  · simp [js]
  all_goals simpa using hu

/-- The value of the text of a finite number. -/
def read : JsString → ℚ
  | 45 :: t => -readPositive t
  | t => readPositive t

theorem read_toJs (d : Decimal) : read d.toJs = d.toRat := by
  have hs := natText_digits d.mant.natAbs
  have hv := digitsValue_natText d.mant.natAbs
  have hl (n : ℤ) := readPositive_layout hs (natText_ne_nil _) n
  have hh (n : ℤ) := layout_head hs (natText_ne_nil _) n
  unfold toJs
  split_ifs with h₀ h₁
  · rw [h₀]
    simp [natText, zeros, read, readPositive, toRat, h₀, cut, digitsValue]
  · have hm : (d.mant : ℚ) = -(d.mant.natAbs : ℕ) := by
      rw [← Int.cast_natCast, Int.ofNat_natAbs_of_nonpos h₁.le]
      simp
    rw [show js "-" = [45] by rfl, List.singleton_append, read, hl, hv, toRat, hm,
      add_sub_cancel_right]
    ring
  · have hm : (d.mant : ℚ) = (d.mant.natAbs : ℕ) := by
      rw [← Int.cast_natCast, Int.natAbs_of_nonneg (not_lt.1 h₁)]
    have hr (t : JsString) (ht : t.head? ≠ some 45) : read t = readPositive t := by
      unfold read
      split
      · exact absurd rfl ht
      · rfl
    rw [List.nil_append, hr _ (hh _), hl, hv, toRat, hm, add_sub_cancel_right]

theorem toJs_injective : Function.Injective toJs := fun a b h ↦
  toRat_injective (by rw [← read_toJs, h, read_toJs])

/-- The units a finite number is written with. -/
def IsNumberUnit (u : UInt16) : Prop := 48 ≤ u ∧ u ≤ 57 ∨ u ∈ js ".-+e"

instance : DecidablePred IsNumberUnit := fun _ ↦ inferInstanceAs (Decidable (_ ∨ _))

theorem isNumberUnit_of_digits {t : JsString} (ht : IsDigits t) : ∀ u ∈ t, IsNumberUnit u := by
  intro u hu
  obtain ⟨d, hd, rfl⟩ := ht u hu
  interval_cases d <;> decide

theorem isNumberUnit_of_all {t : JsString} (h : t.all (fun u ↦ decide (IsNumberUnit u)) = true) :
    ∀ u ∈ t, IsNumberUnit u := by simpa using h

theorem layout_units {s : JsString} (hs : IsDigits s) (n : ℤ) :
    ∀ u ∈ layout s n, IsNumberUnit u := by
  have hd {t : JsString} (ht : IsDigits t) := isNumberUnit_of_digits ht
  have ha {t t' : JsString} (h : ∀ u ∈ t, IsNumberUnit u) (h' : ∀ u ∈ t', IsNumberUnit u) :
      ∀ u ∈ t ++ t', IsNumberUnit u := fun u hu ↦ (List.mem_append.1 hu).elim (h u) (h' u)
  have ht (k : ℕ) := hd (hs.sublist (List.take_sublist k _))
  have ht' (k : ℕ) := hd (hs.sublist (List.drop_sublist k _))
  by_cases h₁ : s.length ≤ n ∧ n ≤ 21
  · rw [layout, if_pos h₁]
    exact ha (hd hs) (hd (zeros_digits _))
  by_cases h₂ : 0 < n ∧ n ≤ 21
  · rw [layout, if_neg h₁, if_pos h₂]
    exact ha (ha (ht _) (isNumberUnit_of_all (by decide))) (ht' _)
  by_cases h₃ : -6 < n ∧ n ≤ 0
  · rw [layout, if_neg h₁, if_neg h₂, if_pos h₃]
    exact ha (ha (isNumberUnit_of_all (by decide)) (hd (zeros_digits _))) (hd hs)
  have he : ∀ u ∈ (if 0 < n then js "e+" else js "e-") ++ natText (n - 1).natAbs,
      IsNumberUnit u :=
    ha (by split <;> exact isNumberUnit_of_all (by decide)) (hd (natText_digits _))
  rw [layout, if_neg h₁, if_neg h₂, if_neg h₃]
  dsimp only
  by_cases h₄ : s.length = 1
  · rw [if_pos h₄]
    exact ha (hd hs) he
  · rw [if_neg h₄]
    exact ha (ha (ha (ht _) (isNumberUnit_of_all (by decide))) (ht' _)) he

theorem toJs_units (d : Decimal) : ∀ u ∈ d.toJs, IsNumberUnit u := by
  intro u hu
  have hs := natText_digits d.mant.natAbs
  unfold toJs at hu
  split_ifs at hu with h₀ h₁
  · exact isNumberUnit_of_digits hs u hu
  · rcases List.mem_append.1 hu with hu | hu
    · rw [List.mem_singleton.1 hu]
      decide
    · exact layout_units hs _ u hu
  · exact layout_units hs _ u hu

end Decimal

namespace JsNumber

theorem toJs_injective : Function.Injective toJs := by
  have hf (d : Decimal) (t : JsString) (h : d.toJs = t) : 78 ∉ t ∧ 73 ∉ t :=
    h ▸ ⟨fun hu ↦ absurd (d.toJs_units _ hu) (by decide),
      fun hu ↦ absurd (d.toJs_units _ hu) (by decide)⟩
  have hi (n : Bool) : 73 ∈ toJs (.infinity n) := by cases n <;> decide
  intro a b h
  cases a with
  | finite a =>
    cases b with
    | finite b => exact congrArg _ (Decimal.toJs_injective h)
    | infinity n => exact absurd (hi n) (hf a _ h).2
    | nan => exact absurd (by decide) (hf a _ h).1
  | infinity n =>
    cases b with
    | finite b => exact absurd (hi n) (hf b _ h.symm).2
    | infinity m => cases n <;> cases m <;> first | rfl | exact absurd h (by decide)
    | nan => cases n <;> exact absurd h (by decide)
  | nan =>
    cases b with
    | finite b => exact absurd (by decide) (hf b _ h.symm).1
    | infinity m => cases m <;> exact absurd h (by decide)
    | nan => rfl

end JsNumber

theorem Decimal.intCast_toRat (m : ℤ) : (m : Decimal).toRat = m := by
  rw [scaled_toRat, zpow_zero, mul_one]

theorem JsNumber.intCast_injective : Function.Injective (fun m : ℤ ↦ (m : JsNumber)) := by
  intro a b h
  have hd : (a : Decimal) = (b : Decimal) := JsNumber.finite.inj h
  have hr := congrArg Decimal.toRat hd
  rw [Decimal.intCast_toRat, Decimal.intCast_toRat] at hr
  exact_mod_cast hr

theorem JsNumber.intCast_lt {a b : ℤ} : JsNumber.lt (a : JsNumber) (b : JsNumber) = decide (a < b) := by
  rw [JsNumber.lt, Bool.eq_iff_iff, Decimal.lt_iff, Decimal.intCast_toRat, Decimal.intCast_toRat,
    decide_eq_true_eq, Int.cast_lt]

theorem Decimal.le_strip (n : ℕ) (m e : ℤ) : e ≤ (strip n m e).2 := by
  induction n generalizing m e with
  | zero => exact le_rfl
  | succ n ih =>
    rw [strip]
    split_ifs
    · have := ih (m / 10) (e + 1)
      omega
    · exact le_rfl

theorem JsNumber.isInteger_iff {n : JsNumber} : n.isInteger ↔ ∃ m : ℤ, n = (m : JsNumber) := by
  constructor
  · intro h
    cases n with
    | finite d =>
      have he : (d.exp.toNat : ℤ) = d.exp := Int.toNat_of_nonneg (by simpa [isInteger] using h)
      refine ⟨d.mant * 10 ^ d.exp.toNat, congrArg finite (Decimal.toRat_injective ?_)⟩
      rw [Decimal.intCast_toRat, Decimal.toRat, ← he, zpow_natCast, Int.toNat_natCast]
      push_cast
      rfl
    | infinity | nan => cases h
  · rintro ⟨m, rfl⟩
    by_cases hm : m = 0
    · simp [isInteger, Decimal.scaled, hm]
    · simpa [isInteger, Decimal.scaled, hm] using Decimal.le_strip _ m 0

end Counted
