import Counted.Kernel.Calendar

namespace Counted

namespace Json

mutual

/-- What `JSON.parse` reads of the text `JSON.stringify` writes. -/
def reparsed : Json → Json
  | .num (.finite d) => .num (.finite d)
  | .num _ => .null
  | .arr items => .arr (reparsedItems items)
  | .obj fields => .obj (reparsedFields fields)
  | .null => .null
  | .bool b => .bool b
  | .str s => .str s

def reparsedItems : List Json → List Json
  | [] => []
  | j :: items => reparsed j :: reparsedItems items

def reparsedFields : List (JsString × Json) → List (JsString × Json)
  | [] => []
  | (key, j) :: fields => (key, reparsed j) :: reparsedFields fields

end

theorem reparsedItems_eq (items : List Json) : reparsedItems items = items.map reparsed := by
  induction items with
  | nil => rfl
  | cons j items ih => rw [reparsedItems, ih, List.map_cons]

@[simp] theorem reparsed_str (s : JsString) : reparsed (.str s) = .str s := rfl

@[simp] theorem reparsed_arr (items : List Json) :
    reparsed (.arr items) = .arr (items.map reparsed) := by
  rw [reparsed, reparsedItems_eq]

@[simp] theorem reparsed_obj (fields : List (JsString × Json)) :
    reparsed (.obj fields) = .obj (reparsedFields fields) := rfl

@[simp] theorem reparsedFields_cons (key : JsString) (j : Json) (fields : List (JsString × Json)) :
    reparsedFields ((key, j) :: fields) = (key, reparsed j) :: reparsedFields fields := rfl

@[simp] theorem reparsedFields_nil : reparsedFields [] = [] := rfl

theorem get_reparsedFields (fields : List (JsString × Json)) (key : JsString) :
    JsObject.get (reparsedFields fields) key = (JsObject.get fields key).map reparsed := by
  induction fields with
  | nil => rfl
  | cons f fields ih =>
    simp only [JsObject.get, reparsedFields, List.find?_cons] at ih ⊢
    by_cases hk : f.1 = key
    · simp [hk]
    · simpa [hk] using ih

mutual

def depth : Json → ℕ
  | .arr items => depthItems items + 1
  | .obj fields => depthFields fields + 1
  | .null | .bool _ | .num _ | .str _ => 0

def depthItems : List Json → ℕ
  | [] => 0
  | j :: items => max (depth j) (depthItems items)

def depthFields : List (JsString × Json) → ℕ
  | [] => 0
  | (_, j) :: fields => max (depth j) (depthFields fields)

end

theorem depth_le_items {items : List Json} {j : Json} (h : j ∈ items) :
    depth j ≤ depthItems items := by
  induction items with
  | nil => cases h
  | cons k items ih =>
    rw [depthItems, le_max_iff]
    rcases List.mem_cons.1 h with rfl | h
    · exact .inl le_rfl
    · exact .inr (ih h)

theorem depth_le_fields {fields : List (JsString × Json)} {key : JsString} {j : Json}
    (h : (key, j) ∈ fields) : depth j ≤ depthFields fields := by
  induction fields with
  | nil => cases h
  | cons f fields ih =>
    rw [depthFields, le_max_iff]
    rcases List.mem_cons.1 h with rfl | h
    · exact .inl le_rfl
    · exact .inr (ih h)

end Json

/-- A list is read back as it was when each of its elements is. -/
theorem mapM_readBack {α β : Type} {read : β → Option α} {write : α → β} (l : List α) :
    (l.map write).mapM read = some l ↔ ∀ a ∈ l, read (write a) = some a := by
  induction l with
  | nil => simp
  | cons a l ih =>
    rw [List.map_cons, List.mapM_cons, List.forall_mem_cons, ← ih]
    constructor
    · intro h
      obtain ⟨b, hb, h⟩ := Option.bind_eq_some_iff.1 h
      obtain ⟨m, hm, h⟩ := Option.bind_eq_some_iff.1 h
      cases h
      exact ⟨hb, hm⟩
    · rintro ⟨ha, hl⟩
      rw [ha, hl]
      rfl

namespace Calendar

def yearValue : JsString → ℤ
  | 45 :: digits => -digitsValue digits
  | 43 :: digits => digitsValue digits
  | digits => digitsValue digits

/-- The time that a text in the form of `toISOString` denotes: the last twenty units are month,
day, hours, minutes, seconds and milliseconds, and all before them is the year. -/
def isoFields (s : JsString) : ℤ :=
  let year := s.take (s.length - 20)
  let rest := s.drop (s.length - 20)
  let part (start width : ℕ) : ℤ := digitsValue ((rest.drop start).take width)
  let y := yearValue year
  let day := monthStart y (part 1 2 - 1).toNat + part 4 2 - 1
  day * dayMs + part 7 2 * 3600000 + part 10 2 * 60000 + part 13 2 * 1000 + part 16 3

/-- `Date.parse`, with the engine for every text that is not one of `toISOString`. -/
def dateParse (rt : Runtime) (s : JsString) : Option ℤ :=
  if |isoFields s| ≤ maxTime ∧ toISOString (isoFields s) = s then some (isoFields s)
  else rt.dateParse s

theorem natText_length_le {n w : ℕ} (hw : 0 < w) (h : n < 10 ^ w) : (natText n).length ≤ w := by
  unfold natText
  split_ifs with hn
  · simp only [zeros, List.length_replicate]
    omega
  · rw [List.length_map, List.length_reverse]
    exact (Nat.digits_length_le_iff (by norm_num) n).2 h

theorem pad_length {n w : ℕ} (hw : 0 < w) (h : n < 10 ^ w) : (pad w n).length = w := by
  have := natText_length_le hw h
  simp only [pad, zeros, List.length_append, List.length_replicate]
  omega

theorem digitsValue_pad (w n : ℕ) : digitsValue (pad w n) = n := by
  rw [pad, digitsValue_append, digitsValue_zeros, digitsValue_natText]
  omega

theorem yearValue_yearText (y : ℤ) : yearValue (yearText y) = y := by
  unfold yearText
  split_ifs with hy hneg
  · have hv := digitsValue_pad 4 y.toNat
    have hd := pad_digits 4 y.toNat
    generalize pad 4 y.toNat = s at hv hd
    have hy' : (digitsValue s : ℤ) = y := by omega
    match s with
    | [] => exact hy'
    | u :: s =>
      obtain ⟨d, hd, rfl⟩ := hd u (List.mem_cons_self ..)
      unfold yearValue
      split
      · next hu => exact absurd (List.cons.inj hu).1 (by interval_cases d <;> decide)
      · next hu => exact absurd (List.cons.inj hu).1 (by interval_cases d <;> decide)
      · exact hy'
  · change -(digitsValue (pad 6 y.natAbs) : ℤ) = y
    rw [digitsValue_pad]
    omega
  · change (digitsValue (pad 6 y.natAbs) : ℤ) = y
    rw [digitsValue_pad]
    omega

theorem isoFields_toISOString (t : ℤ) : isoFields (toISOString t) = t := by
  have hy := yearValue_yearText (yearFromDay (t / dayMs))
  obtain ⟨hm, hlo, hhi⟩ := monthFromDay_spec (t / dayMs)
  have hdate : (t / dayMs - monthStart (yearFromDay (t / dayMs)) (monthFromDay (t / dayMs)) +
      1).toNat < 10 ^ 2 := by
    have hl := leapDay_cases (yearFromDay (t / dayMs))
    generalize monthFromDay (t / dayMs) = m at hm hlo hhi ⊢
    interval_cases m <;> simp [monthStart, daysBefore] at hlo hhi ⊢ <;> omega
  have hms : (t % dayMs).toNat < 86400000 := by
    simp only [dayMs]
    omega
  obtain ⟨a₁, b₁, h₁⟩ := List.length_eq_two.1
    (pad_length (w := 2) (n := monthFromDay (t / dayMs) + 1) (by norm_num) (by omega))
  obtain ⟨a₂, b₂, h₂⟩ := List.length_eq_two.1 (pad_length (w := 2) (by norm_num) hdate)
  obtain ⟨a₃, b₃, h₃⟩ := List.length_eq_two.1
    (pad_length (w := 2) (n := (t % dayMs).toNat / 3600000) (by norm_num) (by omega))
  obtain ⟨a₄, b₄, h₄⟩ := List.length_eq_two.1
    (pad_length (w := 2) (n := (t % dayMs).toNat / 60000 % 60) (by norm_num) (by omega))
  obtain ⟨a₅, b₅, h₅⟩ := List.length_eq_two.1
    (pad_length (w := 2) (n := (t % dayMs).toNat / 1000 % 60) (by norm_num) (by omega))
  obtain ⟨a₆, b₆, c₆, h₆⟩ := List.length_eq_three.1
    (pad_length (w := 3) (n := (t % dayMs).toNat % 1000) (by norm_num) (by omega))
  have e₁ := h₁ ▸ digitsValue_pad 2 (monthFromDay (t / dayMs) + 1)
  have e₂ := h₂ ▸ digitsValue_pad 2 _
  have e₃ := h₃ ▸ digitsValue_pad 2 ((t % dayMs).toNat / 3600000)
  have e₄ := h₄ ▸ digitsValue_pad 2 ((t % dayMs).toNat / 60000 % 60)
  have e₅ := h₅ ▸ digitsValue_pad 2 ((t % dayMs).toNat / 1000 % 60)
  have e₆ := h₆ ▸ digitsValue_pad 3 ((t % dayMs).toNat % 1000)
  have hs : toISOString t = yearText (yearFromDay (t / dayMs)) ++ [45, a₁, b₁, 45, a₂, b₂, 84, a₃,
      b₃, 58, a₄, b₄, 58, a₅, b₅, 46, a₆, b₆, c₆, 90] := by
    simp only [toISOString, h₁, h₂, h₃, h₄, h₅, h₆, List.append_assoc]
    rfl
  have hlen : (toISOString t).length - 20 = (yearText (yearFromDay (t / dayMs))).length := by
    rw [hs, List.length_append]
    exact Nat.add_sub_cancel ..
  simp only [isoFields, hlen]
  simp only [hs, List.take_left, List.drop_left, hy, List.drop_succ_cons, List.drop_zero,
    List.take_succ_cons, List.take_zero, e₁, e₂, e₃, e₄, e₅, e₆]
  have hmonth : (((monthFromDay (t / dayMs) + 1 : ℕ) : ℤ) - 1).toNat =
      monthFromDay (t / dayMs) := by omega
  rw [hmonth]
  simp only [dayMs] at *
  omega

theorem dateParse_toISOString (rt : Runtime) {t : ℤ} (h : |t| ≤ maxTime) :
    dateParse rt (toISOString t) = some t := by
  have ht := isoFields_toISOString t
  rw [dateParse, ht, if_pos ⟨h, rfl⟩]

theorem timeClip_intCast {t : ℤ} (h : |t| ≤ maxTime) : timeClip (t : Decimal) = some t := by
  rw [abs_le] at h
  have hv (n : ℤ) : (n : Decimal).toRat = n := by rw [Decimal.scaled_toRat, zpow_zero, mul_one]
  have hhi : ((maxTime : ℤ) : Decimal).lt (t : Decimal) = false := by
    rw [← Bool.not_eq_true, Decimal.lt_iff, hv, hv, Int.cast_lt]
    omega
  have hlo : (t : Decimal).lt ((-maxTime : ℤ) : Decimal) = false := by
    rw [← Bool.not_eq_true, Decimal.lt_iff, hv, hv, Int.cast_lt]
    omega
  have he := Decimal.scaled_exp_nonneg t
  have hm := hv t
  simp only [timeClip, hhi, hlo, Bool.or_self, Bool.false_eq_true, if_false, if_pos he]
  rw [Decimal.toRat, ← Int.toNat_of_nonneg he, zpow_natCast] at hm
  exact congrArg some (by exact_mod_cast hm)

end Calendar

end Counted
