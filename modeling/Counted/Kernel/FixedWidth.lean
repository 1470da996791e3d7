import Counted.Kernel.RoundTrip

namespace Counted

/-! Numbers written with a fixed number of digits are in order as texts. -/

theorem digitsValue_cons (u : UInt16) (s : JsString) :
    digitsValue (u :: s) = (u.toNat - 48) * 10 ^ s.length + digitsValue s := by
  have h := digitsValue_append [u] s
  rw [List.singleton_append] at h
  rw [h]
  simp [digitsValue]

theorem IsDigits.value_lt {s : JsString} (h : IsDigits s) : digitsValue s < 10 ^ s.length := by
  induction s with
  | nil => exact Nat.one_pos
  | cons u s ih =>
    obtain ⟨d, hd, rfl⟩ := h u List.mem_cons_self
    have hs := ih fun v hv ↦ h v (List.mem_cons_of_mem _ hv)
    rw [digitsValue_cons, digit_toNat hd, Nat.add_sub_cancel_left, List.length_cons, pow_succ]
    have hmul : d * 10 ^ s.length ≤ 9 * 10 ^ s.length := Nat.mul_le_mul_right _ (by omega)
    omega

theorem IsDigits.lt {s t : JsString} (hs : IsDigits s) (ht : IsDigits t)
    (hlength : s.length = t.length) (h : digitsValue s < digitsValue t) :
    List.Lex (· < ·) s t := by
  induction s generalizing t with
  | nil =>
    cases t with
    | nil => exact absurd h (lt_irrefl _)
    | cons v t => cases hlength
  | cons u s ih =>
    cases t with
    | nil => cases hlength
    | cons v t =>
      obtain ⟨d, hd, rfl⟩ := hs u List.mem_cons_self
      obtain ⟨e, he, rfl⟩ := ht v List.mem_cons_self
      have hs' : IsDigits s := fun w hw ↦ hs w (List.mem_cons_of_mem _ hw)
      have ht' : IsDigits t := fun w hw ↦ ht w (List.mem_cons_of_mem _ hw)
      have hlength' : s.length = t.length := Nat.succ.inj hlength
      rw [digitsValue_cons, digitsValue_cons, digit_toNat hd, digit_toNat he,
        Nat.add_sub_cancel_left, Nat.add_sub_cancel_left, hlength'] at h
      have hsv := hs'.value_lt
      have htv := ht'.value_lt
      rw [hlength'] at hsv
      rcases lt_trichotomy d e with hde | rfl | hde
      · refine .rel (UInt16.lt_iff_toNat_lt.2 ?_)
        rw [digit_toNat hd, digit_toNat he]
        omega
      · exact .cons (ih hs' ht' hlength' (by omega))
      · have hmul : (e + 1) * 10 ^ t.length ≤ d * 10 ^ t.length := Nat.mul_le_mul_right _ hde
        rw [Nat.add_mul] at hmul
        omega

theorem lex_append {s t a b : JsString} (h : List.Lex (· < ·) s t) (hlength : s.length = t.length) :
    List.Lex (· < ·) (s ++ a) (t ++ b) := by
  induction h with
  | nil => cases hlength
  | cons _ ih => exact .cons (ih (Nat.succ.inj hlength))
  | rel h => exact .rel h

namespace Calendar

variable {w n m : ℕ}

theorem pad_lt (hw : 0 < w) (hm : m < 10 ^ w) (h : n < m) : List.Lex (· < ·) (pad w n) (pad w m) := by
  refine (pad_digits w n).lt (pad_digits w m) ?_ ?_
  · rw [pad_length hw (h.trans hm), pad_length hw hm]
  · rwa [digitsValue_pad, digitsValue_pad]

/-- Numbers of given widths, each with a mark after it. -/
def fixedText : List (ℕ × UInt16) → List ℕ → JsString
  | (w, mark) :: shape, n :: values => pad w n ++ mark :: fixedText shape values
  | _, _ => []

/-- The numbers have no more digits than their widths. -/
def Fits (shape : List (ℕ × UInt16)) (values : List ℕ) : Prop :=
  List.Forall₂ (fun p n ↦ 0 < p.1 ∧ n < 10 ^ p.1) shape values

theorem fixedText_lt {shape : List (ℕ × UInt16)} {values values' : List ℕ}
    (hv : Fits shape values) (hv' : Fits shape values') (h : List.Lex (· < ·) values values') :
    List.Lex (· < ·) (fixedText shape values) (fixedText shape values') := by
  induction hv generalizing values' with
  | nil =>
    cases hv'
    cases h
  | @cons p n shape values hn _ ih =>
    obtain ⟨w, mark⟩ := p
    cases hv' with
    | cons hn' hv' =>
      cases h with
      | cons h => exact List.Lex.append_left _ (.cons (ih hv' h)) _
      | rel h =>
        refine lex_append (pad_lt hn'.1 hn'.2 h) ?_
        rw [pad_length hn.1 hn.2, pad_length hn'.1 hn'.2]

end Calendar

end Counted
