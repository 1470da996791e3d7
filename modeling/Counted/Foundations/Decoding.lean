import Mathlib.Data.List.Forall2

namespace Counted.Foundations

theorem bind_ok {ε α β : Type} {x : Except ε α} {f : α → Except ε β} {b : β}
    (h : (x >>= f) = .ok b) : ∃ a, x = .ok a ∧ f a = .ok b := by
  cases x with
  | error e => cases h
  | ok a => exact ⟨a, rfl, h⟩

theorem ok_bind {ε α β : Type} (a : α) (f : α → Except ε β) : Except.ok a >>= f = f a := rfl

theorem map_ok {ε α β : Type} {x : Except ε α} {f : α → β} {b : β} :
    x.map f = .ok b ↔ ∃ a, x = .ok a ∧ f a = b := by
  cases x with
  | error e => exact iff_of_false (by rintro ⟨⟩) (by rintro ⟨a, ⟨⟩, _⟩)
  | ok a =>
    constructor
    · rintro ⟨⟩
      exact ⟨a, rfl, rfl⟩
    · rintro ⟨_, ⟨⟩, rfl⟩
      rfl

theorem mapM_ok {ε α β : Type} {read : β → Except ε α} {write : α → β} {l : List α}
    (h : ∀ a ∈ l, read (write a) = .ok a) : (l.map write).mapM read = .ok l := by
  induction l with
  | nil => rfl
  | cons a l ih =>
    rw [List.forall_mem_cons] at h
    rw [List.map_cons, List.mapM_cons, h.1, ih h.2]
    rfl

theorem map_of_mapM_ok {ε α β γ : Type} {read : β → Except ε α} (write : α → γ) (origin : β → γ)
    {l : List β} (h : ∀ b ∈ l, ∀ a, read b = .ok a → write a = origin b) {m : List α}
    (hm : l.mapM read = .ok m) : m.map write = l.map origin := by
  induction l generalizing m with
  | nil =>
    cases hm
    rfl
  | cons b l ih =>
    rw [List.forall_mem_cons] at h
    rw [List.mapM_cons] at hm
    obtain ⟨a, ha, hm⟩ := bind_ok hm
    obtain ⟨rest, hr, hm⟩ := bind_ok hm
    cases hm
    rw [List.map_cons, List.map_cons, h.1 a ha, ih h.2 hr]

theorem mapM_ok_iff {ε α β : Type} {read : β → Except ε α} {l : List β} {m : List α} :
    l.mapM read = .ok m ↔ List.Forall₂ (fun b a ↦ read b = .ok a) l m := by
  induction l generalizing m with
  | nil =>
    rw [List.forall₂_nil_left_iff]
    exact ⟨fun h ↦ (Except.ok.inj h).symm, fun h ↦ congrArg Except.ok h.symm⟩
  | cons b l ih =>
    rw [List.forall₂_cons_left_iff, List.mapM_cons]
    constructor
    · intro h
      obtain ⟨a, ha, h⟩ := bind_ok h
      obtain ⟨rest, hrest, h⟩ := bind_ok h
      cases h
      exact ⟨a, rest, ha, ih.1 hrest, rfl⟩
    · rintro ⟨a, rest, ha, hrest, rfl⟩
      rw [ha, ih.2 hrest]
      rfl

theorem exists_forall₂ {α β : Type} {R : β → α → Prop} {l : List β} (h : ∀ b ∈ l, ∃ a, R b a) :
    ∃ m, List.Forall₂ R l m := by
  induction l with
  | nil => exact ⟨[], .nil⟩
  | cons b l ih =>
    rw [List.forall_mem_cons] at h
    obtain ⟨a, ha⟩ := h.1
    obtain ⟨m, hm⟩ := ih h.2
    exact ⟨a :: m, .cons ha hm⟩

theorem forall₂_left {α β : Type} {R : β → α → Prop} {l : List β} {m : List α} {b : β}
    (h : List.Forall₂ R l m) (hb : b ∈ l) : ∃ a ∈ m, R b a := by
  induction h with
  | nil => cases hb
  | @cons c a l m hca _ ih =>
    rcases List.mem_cons.1 hb with rfl | hb
    · exact ⟨a, .head _, hca⟩
    · obtain ⟨a', ha', hr⟩ := ih hb
      exact ⟨a', .tail _ ha', hr⟩

theorem forall₂_right {α β : Type} {R : β → α → Prop} {l : List β} {m : List α} {a : α}
    (h : List.Forall₂ R l m) (ha : a ∈ m) : ∃ b ∈ l, R b a := by
  obtain ⟨b, hb, hr⟩ := forall₂_left h.flip ha
  exact ⟨b, hb, hr⟩

/-- What a list is read into is read from its members. -/
theorem mem_of_mapM_ok {ε α β : Type} {read : β → Except ε α} {l : List β} {m : List α} {a : α}
    (hm : l.mapM read = .ok m) (ha : a ∈ m) : ∃ b ∈ l, read b = .ok a := by
  induction l generalizing m with
  | nil =>
    cases hm
    cases ha
  | cons b l ih =>
    rw [List.mapM_cons] at hm
    obtain ⟨x, hx, hm⟩ := bind_ok hm
    obtain ⟨rest, hr, hm⟩ := bind_ok hm
    cases hm
    rcases List.mem_cons.1 ha with rfl | ha
    · exact ⟨b, .head _, hx⟩
    · obtain ⟨c, hc, hca⟩ := ih hr ha
      exact ⟨c, .tail _ hc, hca⟩

end Counted.Foundations
