import Mathlib

namespace Counted.Foundations

/-- A computation over a state that may throw. What it did before it threw stays done. -/
def Attempt (σ α : Type) : Type := σ → Option α × σ

namespace Attempt

variable {σ α β κ υ : Type}

instance : Monad (Attempt σ) where
  pure a := fun s ↦ (some a, s)
  bind x f := fun s ↦
    match x s with
    | (some a, t) => f a t
    | (none, t) => (none, t)

/-- One call: it is done as a whole, or throws and changes nothing. -/
def call (throws : Bool) (f : σ → α × σ) : Attempt σ α := fun s ↦
  if throws then (none, s) else (some (f s).1, (f s).2)

def read (throws : Bool) (f : σ → α) : Attempt σ α := call throws (fun s ↦ (f s, s))

def write (throws : Bool) (f : σ → σ) : Attempt σ Unit := call throws (fun s ↦ ((), f s))

/-- Goes on with a value where the computation threw. -/
def rescue (x : Attempt σ α) (a : α) : Attempt σ α := fun s ↦
  match x s with
  | (some b, t) => (some b, t)
  | (none, t) => (some a, t)

/-- Where the computation returns it meets `R`, and where it throws it meets `T`. -/
def Ends (x : Attempt σ α) (s : σ) (R : α → σ → Prop) (T : σ → Prop) : Prop :=
  match x s with
  | (some a, t) => R a t
  | (none, t) => T t

variable {x : Attempt σ α} {f : α → Attempt σ β} {s : σ} {R R' : α → σ → Prop} {Q : β → σ → Prop}
  {T T' : σ → Prop} {a : α} {throws : Bool}

@[simp] theorem ends_pure : (pure a : Attempt σ α).Ends s R T ↔ R a s := Iff.rfl

/-- The rest of a computation starts in the state its first part returned in. -/
@[simp] theorem ends_bind :
    (x >>= f).Ends s Q T ↔ x.Ends s (fun a t ↦ (f a).Ends t Q T) T := by
  change (match (match x s with
    | (some a, t) => f a t
    | (none, t) => (none, t) : Option β × σ) with
    | (some b, t) => Q b t
    | (none, t) => T t) ↔ _
  rw [Ends]
  rcases x s with ⟨_ | a, t⟩ <;> rfl

@[simp] theorem ends_call {g : σ → α × σ} :
    (call throws g).Ends s R T ↔
      (throws = true → T s) ∧ (throws = false → R (g s).1 (g s).2) := by
  cases throws <;> simp [Ends, call]

@[simp] theorem ends_read {g : σ → α} :
    (read throws g).Ends s R T ↔ (throws = true → T s) ∧ (throws = false → R (g s) s) := ends_call

@[simp] theorem ends_write {g : σ → σ} {R : Unit → σ → Prop} :
    (write throws g).Ends s R T ↔ (throws = true → T s) ∧ (throws = false → R () (g s)) := ends_call

@[simp] theorem ends_rescue :
    (x.rescue a).Ends s R T ↔ x.Ends s R (R a) := by
  rw [Ends, Ends, rescue]
  rcases x s with ⟨_ | b, t⟩ <;> rfl

theorem Ends.mono (h : x.Ends s R T) (hR : ∀ a t, R a t → R' a t) (hT : ∀ t, T t → T' t) :
    x.Ends s R' T' := by
  unfold Ends at h ⊢
  rcases hx : x s with ⟨_ | a, t⟩ <;> rw [hx] at h
  · exact hT t h
  · exact hR a t h

theorem Ends.and (h : x.Ends s R T) (h' : x.Ends s R' T') :
    x.Ends s (fun a t ↦ R a t ∧ R' a t) (fun t ↦ T t ∧ T' t) := by
  unfold Ends at h h' ⊢
  rcases hx : x s with ⟨_ | a, t⟩ <;> rw [hx] at h h' <;> exact ⟨h, h'⟩

/-- What a computation that never throws ends in. -/
theorem Ends.run (h : x.Ends s R (fun _ ↦ False)) : ∃ a t, x s = (some a, t) ∧ R a t := by
  unfold Ends at h
  rcases hx : x s with ⟨_ | a, t⟩ <;> rw [hx] at h
  · exact h.elim
  · exact ⟨a, t, rfl, h⟩

/-- A loop over a list that collects what its body returns. -/
def each (f : α → Attempt σ β) : List α → Attempt σ (List β)
  | [] => pure []
  | a :: l => do
    let b ← f a
    let bs ← each f l
    return b :: bs

/-- In a loop whose turns each change the view of their own key only, and which has no key twice,
a turn takes the view of its key from what it was at first to what it is in the end. -/
theorem ends_each (key : α → κ) (view : κ → σ → υ) {P : α → υ → β → υ → Prop}
    (hf : ∀ a s, (f a).Ends s (fun b t ↦ P a (view (key a) s) b (view (key a) t) ∧
      ∀ k ≠ key a, view k t = view k s) (fun _ ↦ False))
    {l : List α} (hl : (l.map key).Nodup) (s : σ) :
    (each f l).Ends s (fun bs t ↦
      l.Forall₂ (fun a b ↦ P a (view (key a) s) b (view (key a) t)) bs ∧
        ∀ k ∉ l.map key, view k t = view k s) (fun _ ↦ False) := by
  induction l generalizing s with
  | nil => exact ⟨.nil, fun k _ ↦ rfl⟩
  | cons a l ih =>
    rw [List.map_cons, List.nodup_cons] at hl
    rw [each, ends_bind]
    refine (hf a s).mono (fun b t hb ↦ ?_) (fun _ h ↦ h)
    rw [ends_bind]
    refine (ih hl.2 t).mono (fun bs u hbs ↦ ?_) (fun _ h ↦ h)
    obtain ⟨hturn, hothers⟩ := hb
    obtain ⟨hturns, hrest⟩ := hbs
    have hmem := (List.forall₂_and_left l bs).2 ⟨fun c (hc : c ∈ l) ↦ hc, hturns⟩
    refine ⟨.cons ?_ (hmem.imp ?_), fun k hk ↦ ?_⟩
    · rwa [hrest _ hl.1]
    · intro c d ⟨hc, h⟩
      rwa [hothers _ fun he ↦ hl.1 (he ▸ List.mem_map_of_mem hc)] at h
    · rw [List.map_cons, List.mem_cons, not_or] at hk
      exact (hrest k hk.2).trans (hothers k hk.1)

/-- Each of the related entries has its partner. -/
theorem exists_of_forall₂ {r : α → β → Prop} {l : List α} {m : List β} (h : l.Forall₂ r m) :
    (∀ a ∈ l, ∃ b ∈ m, r a b) ∧ ∀ b ∈ m, ∃ a ∈ l, r a b := by
  induction h with
  | nil => simp
  | cons hab _ ih =>
    rw [List.forall_mem_cons, List.forall_mem_cons]
    exact ⟨⟨⟨_, List.mem_cons_self, hab⟩,
        fun a ha ↦ (ih.1 a ha).imp fun b hb ↦ ⟨List.mem_cons_of_mem _ hb.1, hb.2⟩⟩,
      ⟨_, List.mem_cons_self, hab⟩,
      fun b hb ↦ (ih.2 b hb).imp fun a ha ↦ ⟨List.mem_cons_of_mem _ ha.1, ha.2⟩⟩

end Attempt

end Counted.Foundations
