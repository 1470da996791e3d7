import Mathlib

namespace Counted.Foundations

/-- Reads from the front of the bytes that are left, or fails. -/
abbrev ByteReader (ε : Type) := StateT (List UInt8) (Except ε)

variable {ε α β γ : Type} {r : ByteReader ε α} {f : α → ByteReader ε β} {a : α} {b : β}
  {bytes more : List UInt8}

/-- `r` takes exactly `bytes`, whatever follows them, and makes `a` of them. -/
def Reads (r : ByteReader ε α) (bytes : List UInt8) (a : α) : Prop :=
  ∀ rest, r (bytes ++ rest) = .ok (a, rest)

theorem Reads.pure (a : α) : Reads (pure a : ByteReader ε α) [] a := fun _ ↦ rfl

theorem Reads.bind (hr : Reads r bytes a) (hf : Reads (f a) more b) :
    Reads (r >>= f) (bytes ++ more) b := by
  intro rest
  have h : (r >>= f) (bytes ++ more ++ rest) =
      (r (bytes ++ (more ++ rest))) >>= fun p ↦ f p.1 p.2 := by
    rw [List.append_assoc]
    rfl
  rw [h, hr]
  exact hf rest

theorem Reads.bind_pure (hr : Reads r bytes a) (g : α → β) :
    Reads (r >>= fun a ↦ Pure.pure (g a)) bytes (g a) := by
  have h := hr.bind (f := fun a ↦ Pure.pure (g a)) (Reads.pure (g a))
  rw [List.append_nil] at h
  exact h

theorem Reads.map (hr : Reads r bytes a) (g : α → β) : Reads (g <$> r) bytes (g a) :=
  hr.bind_pure g

/-- The same reader so many times. -/
def readMany (r : ByteReader ε α) : ℕ → ByteReader ε (List α)
  | 0 => Pure.pure []
  | n + 1 => do
    let a ← r
    let rest ← readMany r n
    return a :: rest

theorem Reads.many {write : γ → List UInt8} {read : γ → α} {l : List γ}
    (h : ∀ c ∈ l, Reads r (write c) (read c)) :
    Reads (readMany r l.length) (l.flatMap write) (l.map read) := by
  induction l with
  | nil => exact Reads.pure []
  | cons c l ih =>
    have hc : Reads r (write c) (read c) := h c (List.mem_cons_self ..)
    have hl := ih fun c' hc' ↦ h c' (List.mem_cons_of_mem _ hc')
    exact hc.bind (hl.map (read c :: ·))

/-- LEB128: seven bits a byte, the lowest first. -/
def leb128 (n : ℕ) : List UInt8 :=
  if 128 ≤ n then UInt8.ofNat (n % 128 + 128) :: leb128 (n / 128) else [UInt8.ofNat n]
termination_by n

theorem leb128_ne_nil (n : ℕ) : leb128 n ≠ [] := by
  rw [leb128]
  split <;> simp

/-- What LEB128 bytes stand for, above what was read of them; `e` where they end too early. -/
def leb128From (e : ε) : List UInt8 → ℕ → ℕ → Except ε (ℕ × List UInt8)
  | [], _, _ => .error e
  | byte :: rest, value, scale =>
    if byte.toNat < 128 then .ok (value + byte.toNat % 128 * scale, rest)
    else leb128From e rest (value + byte.toNat % 128 * scale) (scale * 128)

def readLeb128 (e : ε) : ByteReader ε ℕ := fun bytes ↦ leb128From e bytes 0 1

theorem leb128From_append (e : ε) (n value scale : ℕ) (rest : List UInt8) :
    leb128From e (leb128 n ++ rest) value scale = .ok (value + n * scale, rest) := by
  induction n using Nat.strongRecOn generalizing value scale with
  | ind n ih =>
    rw [leb128]
    split
    · have hbyte : (UInt8.ofNat (n % 128 + 128)).toNat = n % 128 + 128 := by
        rw [UInt8.toNat_ofNat']
        omega
      have hlow : (n % 128 + 128) % 128 = n % 128 := by omega
      rw [List.cons_append, leb128From, hbyte, if_neg (by omega), ih (n / 128) (by omega), hlow]
      have hn : n % 128 * scale + n / 128 * (scale * 128) = n * scale := by
        conv_rhs => rw [← Nat.mod_add_div n 128]
        ring
      rw [add_assoc, hn]
    · have hbyte : (UInt8.ofNat n).toNat = n := by
        rw [UInt8.toNat_ofNat']
        omega
      rw [List.singleton_append, leb128From, hbyte, if_pos (by omega), Nat.mod_eq_of_lt (by omega)]

theorem reads_leb128 (e : ε) (n : ℕ) : Reads (readLeb128 e) (leb128 n) n := by
  intro rest
  rw [readLeb128, leb128From_append, zero_add, mul_one]

end Counted.Foundations
