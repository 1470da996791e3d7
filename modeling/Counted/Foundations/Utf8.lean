import Counted.Foundations.PercentEncoding

namespace Counted.Foundations

def isSurrogate (u : UInt16) : Bool := isHigh u || isLow u

/-- Every surrogate is in a pair. -/
def wellFormed : Units → Bool
  | [] => true
  | [u] => !isSurrogate u
  | u :: v :: s =>
    if isHigh u && isLow v then wellFormed s else !isSurrogate u && wellFormed (v :: s)

/-- A text as UTF-8, with U+FFFD for each surrogate that is not in a pair. -/
def utf8Bytes (s : Units) : List ℕ := (codePoints s).flatMap utf8

/-! ### Reading it back -/

def scalar (p : ℕ) : Bool := p < 0xD800 || 0xE000 ≤ p && p < 0x110000

/-- The code point the first bytes stand for, if they are well formed. -/
def guess : List ℕ → ℕ
  | [] => 0
  | a :: rest =>
    let b := rest.getD 0 0 - 0x80
    let c := rest.getD 1 0 - 0x80
    let d := rest.getD 2 0 - 0x80
    if a < 0x80 then a
    else if a < 0xE0 then (a - 0xC0) * 64 + b
    else if a < 0xF0 then (a - 0xE0) * 4096 + b * 64 + c
    else (a - 0xF0) * 262144 + b * 4096 + c * 64 + d

/-- The code points, with fuel for each. -/
def readPoints : ℕ → List ℕ → Option (List ℕ)
  | _, [] => some []
  | 0, _ => none
  | n + 1, bytes =>
    if scalar (guess bytes) && (utf8 (guess bytes)).isPrefixOf bytes then
      (readPoints n (bytes.drop (utf8 (guess bytes)).length)).map (guess bytes :: ·)
    else none

def unitsOfPoint (p : ℕ) : Units :=
  if p < 0x10000 then [UInt16.ofNat p]
  else [UInt16.ofNat (0xD800 + (p - 0x10000) / 1024), UInt16.ofNat (0xDC00 + (p - 0x10000) % 1024)]

/-- The text of UTF-8 bytes that are well formed. -/
def decodeUtf8 (bytes : List ℕ) : Option Units :=
  (readPoints bytes.length bytes).map (List.flatMap unitsOfPoint)

variable {p : ℕ} {ps bytes : List ℕ} {u v : UInt16} {s t : Units}

theorem scalar_iff : scalar p = true ↔ p < 0xD800 ∨ 0xE000 ≤ p ∧ p < 0x110000 := by
  simp [scalar]

theorem isSurrogate_eq_false : isSurrogate u = false ↔ u.toNat < 0xD800 ∨ 0xE000 ≤ u.toNat := by
  rw [isSurrogate, ← Bool.not_eq_true, Bool.or_eq_true, isHigh_iff, isLow_iff]
  omega

theorem unpaired_scalar (u : UInt16) : scalar (unpaired u) = true := by
  rw [scalar_iff, unpaired]
  split_ifs with h
  · decide
  · have hu := u.toNat_lt
    rw [← isSurrogate, Bool.not_eq_true, isSurrogate_eq_false] at h
    omega

theorem codePoints_scalar (s : Units) : ∀ p ∈ codePoints s, scalar p = true := by
  induction s using codePoints.induct with
  | case1 =>
    intro p hp
    cases hp
  | case2 u =>
    intro p hp
    rw [List.mem_singleton.1 hp]
    exact unpaired_scalar u
  | case3 u v s h ih =>
    rw [codePoints, if_pos h]
    refine List.forall_mem_cons.2 ⟨?_, ih⟩
    have hlt := paired_lt u v
    rw [scalar_iff]
    omega
  | case4 u v s h ih =>
    rw [codePoints, if_neg h]
    exact List.forall_mem_cons.2 ⟨unpaired_scalar u, ih⟩

theorem guess_utf8 (p : ℕ) (rest : List ℕ) : guess (utf8 p ++ rest) = p := by
  rw [utf8]
  split_ifs with h1 h2 h3
  · exact if_pos h1
  · simp only [guess, List.cons_append, List.nil_append, List.getD_cons_zero]
    rw [if_neg (by omega), if_pos (by omega)]
    omega
  · simp only [guess, List.cons_append, List.nil_append, List.getD_cons_zero, List.getD_cons_succ]
    rw [if_neg (by omega), if_neg (by omega), if_pos (by omega)]
    omega
  · simp only [guess, List.cons_append, List.nil_append, List.getD_cons_zero, List.getD_cons_succ]
    rw [if_neg (by omega), if_neg (by omega), if_neg (by omega)]
    omega

theorem utf8_ne_nil (p : ℕ) : utf8 p ≠ [] := by
  rw [utf8]
  split_ifs <;> exact List.cons_ne_nil _ _

theorem readPoints_utf8 (h : ∀ p ∈ ps, scalar p = true) {n : ℕ} (hn : ps.length ≤ n) :
    readPoints n (ps.flatMap utf8) = some ps := by
  induction ps generalizing n with
  | nil =>
    cases n <;> rfl
  | cons p ps ih =>
    have hp := h p List.mem_cons_self
    obtain ⟨n, rfl⟩ := Nat.exists_eq_add_of_le' (Nat.one_le_of_lt hn)
    obtain ⟨a, as, has⟩ := List.exists_cons_of_ne_nil (utf8_ne_nil p)
    have hguess := guess_utf8 p (ps.flatMap utf8)
    have hrest := ih (fun q hq ↦ h q (List.mem_cons_of_mem _ hq)) (Nat.le_of_succ_le_succ hn)
    rw [List.flatMap_cons]
    have hstep : readPoints (n + 1) (utf8 p ++ ps.flatMap utf8) =
        if scalar p && (utf8 p).isPrefixOf (utf8 p ++ ps.flatMap utf8) then
          (readPoints n ((utf8 p ++ ps.flatMap utf8).drop (utf8 p).length)).map (p :: ·)
        else none := by
      conv_lhs => rw [has, List.cons_append, readPoints.eq_3 _ _ (List.cons_ne_nil _ _),
        ← List.cons_append, ← has, hguess]
    rw [hstep, hp, List.isPrefixOf_iff_prefix.2 (List.prefix_append ..), List.drop_left, hrest]
    rfl

theorem length_le_flatMap_utf8 (ps : List ℕ) : ps.length ≤ (ps.flatMap utf8).length := by
  induction ps with
  | nil => exact le_rfl
  | cons p ps ih =>
    have hpos := List.length_pos_of_ne_nil (utf8_ne_nil p)
    rw [List.flatMap_cons, List.length_append, List.length_cons]
    omega

theorem unitsOfPoint_unpaired (h : isSurrogate u = false) : unitsOfPoint (unpaired u) = [u] := by
  have hu : unpaired u = u.toNat := by
    rw [isSurrogate] at h
    rw [unpaired, h, if_neg Bool.false_ne_true]
  rw [unitsOfPoint, hu, if_pos u.toNat_lt, UInt16.ofNat_toNat]

theorem unitsOfPoint_paired (hu : isHigh u = true) (hv : isLow v = true) :
    unitsOfPoint (paired u v) = [u, v] := by
  have hlt := paired_lt u v
  rw [isHigh_iff] at hu
  rw [isLow_iff] at hv
  have hhigh : 0xD800 + (paired u v - 0x10000) / 1024 = u.toNat := by
    rw [paired]
    omega
  have hlow : 0xDC00 + (paired u v - 0x10000) % 1024 = v.toNat := by
    rw [paired]
    omega
  rw [unitsOfPoint, if_neg (by omega), hhigh, hlow, UInt16.ofNat_toNat, UInt16.ofNat_toNat]

theorem flatMap_unitsOfPoint (h : wellFormed s = true) : (codePoints s).flatMap unitsOfPoint = s := by
  induction s using codePoints.induct with
  | case1 => rfl
  | case2 u =>
    rw [wellFormed, Bool.not_eq_true'] at h
    rw [codePoints, List.flatMap_singleton, unitsOfPoint_unpaired h]
  | case3 u v s hpair ih =>
    rw [wellFormed, if_pos hpair] at h
    rw [codePoints, if_pos hpair, List.flatMap_cons, ih h]
    rw [Bool.and_eq_true] at hpair
    rw [unitsOfPoint_paired hpair.1 hpair.2]
    rfl
  | case4 u v s hpair ih =>
    rw [wellFormed, if_neg hpair, Bool.and_eq_true, Bool.not_eq_true'] at h
    rw [codePoints, if_neg hpair, List.flatMap_cons, ih h.2, unitsOfPoint_unpaired h.1]
    rfl

/-- A well-formed text is read back from its bytes. -/
theorem decodeUtf8_utf8Bytes (h : wellFormed s = true) : decodeUtf8 (utf8Bytes s) = some s := by
  rw [decodeUtf8, utf8Bytes, readPoints_utf8 (codePoints_scalar s) (length_le_flatMap_utf8 _),
    Option.map_some, flatMap_unitsOfPoint h]

theorem utf8Bytes_inj (hs : wellFormed s = true) (ht : wellFormed t = true)
    (h : utf8Bytes s = utf8Bytes t) : s = t := by
  have hread := decodeUtf8_utf8Bytes hs
  rw [h, decodeUtf8_utf8Bytes ht] at hread
  exact (Option.some.inj hread).symm

/-- Before and after a unit that is no surrogate. -/
theorem wellFormed_append (h : isSurrogate u = false) :
    wellFormed (s ++ u :: t) = (wellFormed s && wellFormed t) := by
  have hlow : isLow u = false := (Bool.or_eq_false_iff.1 h).2
  have hhigh : isHigh u = false := (Bool.or_eq_false_iff.1 h).1
  have hcons : wellFormed (u :: t) = wellFormed t := by
    cases t with
    | nil => rw [wellFormed.eq_2, h]; rfl
    | cons v t => rw [wellFormed, hhigh, h]; rfl
  induction s using codePoints.induct with
  | case1 => exact hcons
  | case2 v =>
    rw [List.singleton_append, wellFormed.eq_3, hlow, Bool.and_false, if_neg Bool.false_ne_true, hcons]
    rfl
  | case3 v w s hpair ih =>
    rw [List.cons_append, List.cons_append, wellFormed, wellFormed, if_pos hpair, if_pos hpair, ih]
  | case4 v w s hpair ih =>
    rw [List.cons_append] at ih
    rw [List.cons_append, List.cons_append, wellFormed, wellFormed, if_neg hpair, if_neg hpair, ih,
      Bool.and_assoc]

end Counted.Foundations
