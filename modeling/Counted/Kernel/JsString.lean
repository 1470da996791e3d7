import Mathlib

namespace Counted

/-- A JavaScript string: its UTF-16 code units, unpaired surrogates included. -/
abbrev JsString := List UInt16

instance : LawfulBEq JsString := inferInstance

/-- The code units of a literal of the source. All of them lie in the basic plane. -/
def js (s : String) : JsString := s.toList.map (fun c ↦ c.toNat.toUInt16)

namespace JsString

/-- `WhiteSpace` and `LineTerminator`: what `trim` strips and what `\s` matches. -/
def isSpace (u : UInt16) : Bool :=
  (9 ≤ u && u ≤ 13) || u == 32 || u == 0xA0 || u == 0x1680 || (0x2000 ≤ u && u ≤ 0x200A) ||
    u == 0x2028 || u == 0x2029 || u == 0x202F || u == 0x205F || u == 0x3000 || u == 0xFEFF

def trim (s : JsString) : JsString := (s.dropWhile isSpace).rdropWhile isSpace

def startsWith (s t : JsString) : Bool := t.isPrefixOf s

def endsWith (s t : JsString) : Bool := t.isSuffixOf s

def includes (s t : JsString) : Bool := s.tails.any (t.isPrefixOf ·)

/-- `Array.prototype.join`. -/
def join (sep : JsString) (l : List JsString) : JsString := sep.intercalate l

/-- The comparison `Array.prototype.sort` makes by default: by code unit. -/
def le : JsString → JsString → Bool
  | [], _ => true
  | _ :: _, [] => false
  | a :: s, b :: t => a < b || (a == b && le s t)

theorem le_total (s t : JsString) : le s t = true ∨ le t s = true := by
  induction s generalizing t with
  | nil => exact .inl rfl
  | cons a s ih =>
    cases t with
    | nil => exact .inr rfl
    | cons b t =>
      simp only [le, Bool.or_eq_true, decide_eq_true_eq, Bool.and_eq_true, beq_iff_eq,
        UInt16.lt_iff_toNat_lt, ← UInt16.toNat_inj]
      rcases lt_trichotomy a.toNat b.toNat with h | h | h
      · exact .inl (.inl h)
      · exact (ih t).imp (fun ht ↦ .inr ⟨h, ht⟩) (fun ht ↦ .inr ⟨h.symm, ht⟩)
      · exact .inr (.inl h)

theorem le_trans {s t u : JsString} (h : le s t = true) (h' : le t u = true) :
    le s u = true := by
  induction s generalizing t u with
  | nil => rfl
  | cons a s ih =>
    cases t with
    | nil => cases h
    | cons b t =>
      cases u with
      | nil => cases h'
      | cons c u =>
        simp only [le, Bool.or_eq_true, decide_eq_true_eq, Bool.and_eq_true, beq_iff_eq,
          UInt16.lt_iff_toNat_lt, ← UInt16.toNat_inj] at h h' ⊢
        rcases h with h | ⟨h, hs⟩ <;> rcases h' with h' | ⟨h', ht⟩
        · omega
        · omega
        · omega
        · exact .inr ⟨h.trans h', ih hs ht⟩

theorem le_antisymm {s t : JsString} (h : le s t = true) (h' : le t s = true) : s = t := by
  induction s generalizing t with
  | nil =>
    cases t with
    | nil => rfl
    | cons b t => cases h'
  | cons a s ih =>
    cases t with
    | nil => cases h
    | cons b t =>
      simp only [le, Bool.or_eq_true, decide_eq_true_eq, Bool.and_eq_true, beq_iff_eq,
        UInt16.lt_iff_toNat_lt, ← UInt16.toNat_inj] at h h'
      rcases h with h | ⟨hab, hs⟩ <;> rcases h' with h' | ⟨hba, ht⟩
      · omega
      · omega
      · omega
      · rw [UInt16.toNat_inj.1 hab, ih hs ht]

instance : Std.Total (fun s t ↦ le s t = true) := ⟨le_total⟩

instance : IsTrans JsString (fun s t ↦ le s t = true) := ⟨fun _ _ _ ↦ le_trans⟩

instance : Std.Antisymm (fun s t ↦ le s t = true) := ⟨fun _ _ ↦ le_antisymm⟩

/-- `Array.prototype.sort` on strings. Equal strings are the same value, so which stable sort
the engine runs cannot be told apart. -/
def sort (l : List JsString) : List JsString := l.insertionSort (fun s t ↦ le s t = true)

theorem sort_perm (l : List JsString) : (sort l).Perm l := l.perm_insertionSort _

/-- Two lists sort to the same list exactly when they hold the same strings equally often. -/
theorem sort_eq_iff {l m : List JsString} : sort l = sort m ↔ l.Perm m := by
  constructor
  · intro h
    exact ((sort_perm l).symm.trans (h ▸ .refl _)).trans (sort_perm m)
  · intro h
    exact List.Perm.eq_of_pairwise' (l.pairwise_insertionSort _) (m.pairwise_insertionSort _)
      (((sort_perm l).trans h).trans (sort_perm m).symm)

end JsString

end Counted
