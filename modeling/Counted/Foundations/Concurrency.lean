import Mathlib

namespace Counted.Foundations

section

variable {σ ν : Type}

/-- A copy of a state that is worked on apart from it, and whether the state has moved since. -/
structure Copy (σ : Type) where
  state : σ
  moved : Bool

def Copy.outdate (c : Copy σ) : Copy σ := { c with moved := true }

/-- The copies whose state has not moved view what the state itself does. -/
def Seen (view : σ → ν) (s : σ) (copies : List (Copy σ)) : Prop :=
  ∀ c ∈ copies, c.moved = false → view c.state = view s

variable {view : σ → ν} {s t : σ} {copies rest : List (Copy σ)}

theorem seen_nil (s : σ) : Seen view s [] := by
  rintro c ⟨⟩

theorem Seen.load (h : Seen view s copies) : Seen view s (copies ++ [⟨s, false⟩]) := by
  intro c hc hm
  rcases List.mem_append.1 hc with hc | hc
  · exact h c hc hm
  · rw [List.mem_singleton.1 hc]

theorem Seen.keep (h : Seen view s copies) (ht : view t = view s) : Seen view t copies :=
  fun c hc hm ↦ (h c hc hm).trans ht.symm

theorem Seen.sublist (h : Seen view s copies) (hr : rest.Sublist copies) : Seen view s rest :=
  fun c hc ↦ h c (hr.subset hc)

/-- Once the state has moved, every copy is outdated. -/
theorem seen_outdate (s : σ) (copies : List (Copy σ)) : Seen view s (copies.map Copy.outdate) := by
  intro c hc hm
  obtain ⟨d, -, rfl⟩ := List.mem_map.1 hc
  cases hm

theorem Seen.at (h : Seen view s copies) {i : ℕ} {c : Copy σ} (hc : copies[i]? = some c)
    (hm : c.moved = false) : view c.state = view s := h c (List.mem_of_getElem? hc) hm

end

section

/-- Processes that share a value, and the one of them that holds the lock on it. -/
structure Guarded (ι π σ : Type) where
  shared : σ
  holder : Option ι
  process : ι → Option π

namespace Guarded

variable {ι π σ : Type} [DecidableEq ι]

def move (s : Guarded ι π σ) (i : ι) (p : π) (shared : σ) (holder : Option ι) : Guarded ι π σ :=
  ⟨shared, holder, Function.update s.process i (some p)⟩

theorem move_process {s : Guarded ι π σ} {i j : ι} {p q : π} {x : σ} {holder : Option ι}
    (h : (s.move i p x holder).process j = some q) : j = i ∧ q = p ∨ j ≠ i ∧ s.process j = some q := by
  change Function.update s.process i (some p) j = some q at h
  by_cases hj : j = i
  · left
    rw [hj, Function.update_self] at h
    exact ⟨hj, (Option.some.inj h).symm⟩
  · right
    rw [Function.update_of_ne hj] at h
    exact ⟨hj, h⟩

/-- Who is past the lock holds it, so that no two processes are; `I` holds of the value they share
and `J` of the value and each process. -/
structure Inv (past : π → Prop) (I : σ → Prop) (J : σ → π → Prop) (s : Guarded ι π σ) : Prop where
  held : ∀ i p, s.process i = some p → past p → s.holder = some i
  shared : I s.shared
  process : ∀ i p, s.process i = some p → J s.shared p

variable {past : π → Prop} {I : σ → Prop} {J : σ → π → Prop} {s : Guarded ι π σ} {i : ι} {p : π}
  {x : σ}

/-- A process moves without the shared value or the lock, and only the holder past it. -/
theorem Inv.keep (h : s.Inv past I J) (hp : past p → s.holder = some i) (hJ : J s.shared p) :
    (s.move i p s.shared s.holder).Inv past I J := by
  constructor
  · intro j q hq hh
    rcases move_process hq with ⟨rfl, rfl⟩ | ⟨-, hq⟩
    · exact hp hh
    · exact h.held j q hq hh
  · exact h.shared
  · intro j q hq
    rcases move_process hq with ⟨-, rfl⟩ | ⟨-, hq⟩
    · exact hJ
    · exact h.process j q hq

theorem Inv.acquire (h : s.Inv past I J) (hf : s.holder = none) (hJ : J s.shared p) :
    (s.move i p s.shared (some i)).Inv past I J := by
  constructor
  · intro j q hq hh
    rcases move_process hq with ⟨rfl, -⟩ | ⟨-, hq⟩
    · rfl
    · have hs := h.held j q hq hh
      rw [hf] at hs
      cases hs
  · exact h.shared
  · intro j q hq
    rcases move_process hq with ⟨-, rfl⟩ | ⟨-, hq⟩
    · exact hJ
    · exact h.process j q hq

/-- The holder leaves a new value and lets go of the lock. What the others rely on, none of them
past the lock, has to stand the change. -/
theorem Inv.release (h : s.Inv past I J) (hi : s.holder = some i) (hp : ¬ past p) (hI : I x)
    (hJ : J x p) (hs : ∀ q, ¬ past q → J s.shared q → J x q) :
    (s.move i p x none).Inv past I J := by
  have hother {j : ι} {q : π} (hj : j ≠ i) (hq : s.process j = some q) : ¬ past q := by
    intro hh
    have hs := h.held j q hq hh
    rw [hi] at hs
    exact hj (Option.some.inj hs).symm
  constructor
  · intro j q hq hh
    rcases move_process hq with ⟨-, rfl⟩ | ⟨hj, hq⟩
    · exact absurd hh hp
    · exact absurd hh (hother hj hq)
  · exact hI
  · intro j q hq
    rcases move_process hq with ⟨-, rfl⟩ | ⟨hj, hq⟩
    · exact hJ
    · exact hs q (hother hj hq) (h.process j q hq)

/-- A process that is not past the lock moves, and the lock, where it holds it, is let go. -/
theorem Inv.leave (h : s.Inv past I J) (hp : ¬ past p) (hJ : J s.shared p) :
    (s.move i p s.shared (if s.holder = some i then none else s.holder)).Inv past I J := by
  split_ifs with hi
  · exact h.release hi hp h.shared hJ (fun q _ hq ↦ hq)
  · exact h.keep (fun hh ↦ absurd hh hp) hJ

/-- The shared value changes on its own, and what all rely on stands the change. -/
theorem Inv.change (h : s.Inv past I J) (hI : I x) (hJ : ∀ q, J s.shared q → J x q) :
    (⟨x, s.holder, s.process⟩ : Guarded ι π σ).Inv past I J :=
  ⟨h.held, hI, fun i q hq ↦ hJ q (h.process i q hq)⟩

end Guarded

end

section

variable {γ τ : Type} [Preorder τ] (token : γ → τ)

/-- The claim on a leased thing, against the leases granted for it, the newest first: a claim in
force is the newest lease's, and a free thing is granted later than all of them. -/
def Leased (claim : Option τ) (free : τ) (granted : List γ) : Prop :=
  match claim with
  | none => ∀ g ∈ granted, token g < free
  | some t => ∃ g old, granted = g :: old ∧ token g = t ∧ ∀ h ∈ old, token h < t

variable {token} {claim : Option τ} {free t : τ} {g : γ} {granted : List γ}

theorem leased_nil (free : τ) : Leased token none free [] := by
  rintro g ⟨⟩

/-- A grant that waits for a free thing, or for the lease in force to run out. -/
theorem Leased.grant (h : Leased token claim free granted) (hf : claim = none → free ≤ token g)
    (hc : ∀ t, claim = some t → t < token g) :
    Leased token (some (token g)) free (g :: granted) := by
  refine ⟨g, granted, rfl, rfl, ?_⟩
  cases claim with
  | none => exact fun k hk ↦ (h k hk).trans_le (hf rfl)
  | some t =>
    obtain ⟨n, old, rfl, hn, hold⟩ := h
    intro k hk
    rcases List.mem_cons.1 hk with rfl | hk
    · exact hn.trans_lt (hc t rfl)
    · exact (hold k hk).trans (hc t rfl)

theorem Leased.le_claim (h : Leased token (some t) free granted) (hg : g ∈ granted) :
    token g ≤ t := by
  obtain ⟨n, old, rfl, hn, hold⟩ := h
  rcases List.mem_cons.1 hg with rfl | hg
  · exact hn.le
  · exact (hold g hg).le

theorem Leased.release (h : Leased token (some t) free granted) {next : τ} (hn : t < next) :
    Leased token none next granted := fun _ hg ↦ (h.le_claim hg).trans_lt hn

/-- Only the newest lease carries the token of the claim. -/
theorem Leased.newest (h : Leased token (some t) free granted) (hg : g ∈ granted)
    (ht : token g = t) : granted.head? = some g := by
  obtain ⟨n, old, rfl, -, hold⟩ := h
  rcases List.mem_cons.1 hg with rfl | hg
  · rfl
  · exact absurd ht (hold g hg).ne

end

end Counted.Foundations
