import Mathlib

namespace Counted.Foundations

/-- A program that calls others by name and goes on with what they answer. -/
inductive Prog {σ : Type} (ρ : σ → Type) (ε τ : Type)
  | done (t : τ)
  | fail (e : ε)
  | call (c : σ) (next : ρ c → Prog ρ ε τ)

namespace Prog

variable {σ : Type} {ρ : σ → Type} {ε τ υ α : Type}

def bind : Prog ρ ε τ → (τ → Prog ρ ε υ) → Prog ρ ε υ
  | .done t, f => f t
  | .fail e, _ => .fail e
  | .call c next, f => .call c fun r ↦ (next r).bind f

instance : Monad (Prog ρ ε) where
  pure := .done
  bind := bind

def ask (c : σ) : Prog ρ ε (ρ c) := .call c .done

def ofExcept : Except ε τ → Prog ρ ε τ
  | .ok t => .done t
  | .error e => .fail e

/-- A program for every item of a list, in order. -/
def each (f : α → Prog ρ ε τ) : List α → Prog ρ ε (List τ)
  | [] => pure []
  | a :: l => do
    let t ← f a
    let ts ← each f l
    return t :: ts

/-- Runs a program as far as its calls have answers. -/
def run (answer : (c : σ) → Option (Except ε (ρ c))) : Prog ρ ε τ → Option (Except ε τ)
  | .done t => some (.ok t)
  | .fail e => some (.error e)
  | .call c next =>
    match answer c with
    | none => none
    | some (.error e) => some (.error e)
    | some (.ok r) => (next r).run answer

/-- What a program comes to, where `ends` says what its calls come to. -/
inductive Yields (ends : (c : σ) → Except ε (ρ c) → Prop) : Prog ρ ε τ → Except ε τ → Prop
  | done (t : τ) : Yields ends (.done t) (.ok t)
  | fail (e : ε) : Yields ends (.fail e) (.error e)
  | failed {c : σ} {next : ρ c → Prog ρ ε τ} {e : ε} : ends c (.error e) →
      Yields ends (.call c next) (.error e)
  | answered {c : σ} {next : ρ c → Prog ρ ε τ} {r : ρ c} {o : Except ε τ} : ends c (.ok r) →
      Yields ends (next r) o → Yields ends (.call c next) o

/-- A program makes a call: those before it have been answered. -/
inductive Calls (ends : (c : σ) → Except ε (ρ c) → Prop) : Prog ρ ε τ → σ → Prop
  | here {c : σ} {next : ρ c → Prog ρ ε τ} : Calls ends (.call c next) c
  | later {c d : σ} {next : ρ c → Prog ρ ε τ} {r : ρ c} : ends c (.ok r) →
      Calls ends (next r) d → Calls ends (.call c next) d

/-- A program fails by itself, when its calls have been answered. -/
inductive Raises (ends : (c : σ) → Except ε (ρ c) → Prop) : Prog ρ ε τ → ε → Prop
  | here (e : ε) : Raises ends (.fail e) e
  | later {c : σ} {next : ρ c → Prog ρ ε τ} {r : ρ c} {e : ε} : ends c (.ok r) →
      Raises ends (next r) e → Raises ends (.call c next) e

variable {ends : (c : σ) → Except ε (ρ c) → Prop} {p : Prog ρ ε τ} {f : τ → Prog ρ ε υ}
  {o : Except ε τ} {o' : Except ε υ} {e : ε} {c d : σ}

attribute [local simp] bind each run

theorem yields_bind : (p >>= f).Yields ends o' ↔
    (∃ t, p.Yields ends (.ok t) ∧ (f t).Yields ends o') ∨
      ∃ e, p.Yields ends (.error e) ∧ o' = .error e := by
  change (p.bind f).Yields ends o' ↔ _
  induction p with
  | done t =>
    constructor
    · exact fun h ↦ .inl ⟨t, .done t, h⟩
    · rintro (⟨t', ht, h⟩ | ⟨e, he, -⟩)
      · cases ht
        exact h
      · cases he
  | fail e =>
    constructor
    · rintro ⟨⟩
      exact .inr ⟨e, .fail e, rfl⟩
    · rintro (⟨t', ht, -⟩ | ⟨e', he, rfl⟩)
      · cases ht
      · cases he
        exact .fail e
  | call c next ih =>
    constructor
    · intro h
      cases h with
      | failed he => exact .inr ⟨_, .failed he, rfl⟩
      | answered hr h =>
        exact ((ih _).1 h).imp (fun ⟨t, ht, h⟩ ↦ ⟨t, .answered hr ht, h⟩)
          fun ⟨e, he, h⟩ ↦ ⟨e, .answered hr he, h⟩
    · rintro (⟨t, ht, h⟩ | ⟨e, he, rfl⟩)
      · cases ht with
        | answered hr ht => exact .answered hr ((ih _).2 (.inl ⟨t, ht, h⟩))
      · cases he with
        | failed he => exact .failed he
        | answered hr he => exact .answered hr ((ih _).2 (.inr ⟨e, he, rfl⟩))

theorem calls_bind : (p >>= f).Calls ends d ↔
    p.Calls ends d ∨ ∃ t, p.Yields ends (.ok t) ∧ (f t).Calls ends d := by
  change (p.bind f).Calls ends d ↔ _
  induction p with
  | done t =>
    constructor
    · exact fun h ↦ .inr ⟨t, .done t, h⟩
    · rintro (h | ⟨t', ht, h⟩)
      · cases h
      · cases ht
        exact h
  | fail e =>
    constructor
    · rintro ⟨⟩
    · rintro (h | ⟨t', ht, -⟩)
      · cases h
      · cases ht
  | call c next ih =>
    constructor
    · intro h
      cases h with
      | here => exact .inl .here
      | later hr h =>
        exact ((ih _).1 h).imp (.later hr) fun ⟨t, ht, h⟩ ↦ ⟨t, .answered hr ht, h⟩
    · rintro (h | ⟨t, ht, h⟩)
      · cases h with
        | here => exact .here
        | later hr h => exact .later hr ((ih _).2 (.inl h))
      · cases ht with
        | answered hr ht => exact .later hr ((ih _).2 (.inr ⟨t, ht, h⟩))

theorem raises_bind : (p >>= f).Raises ends e ↔
    p.Raises ends e ∨ ∃ t, p.Yields ends (.ok t) ∧ (f t).Raises ends e := by
  change (p.bind f).Raises ends e ↔ _
  induction p with
  | done t =>
    constructor
    · exact fun h ↦ .inr ⟨t, .done t, h⟩
    · rintro (h | ⟨t', ht, h⟩)
      · cases h
      · cases ht
        exact h
  | fail e' =>
    constructor
    · rintro ⟨⟩
      exact .inl (.here _)
    · rintro (h | ⟨t', ht, -⟩)
      · cases h
        exact .here _
      · cases ht
  | call c next ih =>
    constructor
    · intro h
      cases h with
      | later hr h =>
        exact ((ih _).1 h).imp (.later hr) fun ⟨t, ht, h⟩ ↦ ⟨t, .answered hr ht, h⟩
    · rintro (h | ⟨t, ht, h⟩)
      · cases h with
        | later hr h => exact .later hr ((ih _).2 (.inl h))
      · cases ht with
        | answered hr ht => exact .later hr ((ih _).2 (.inr ⟨t, ht, h⟩))

@[simp] theorem yields_pure {t : τ} : (pure t : Prog ρ ε τ).Yields ends o ↔ o = .ok t := by
  constructor
  · rintro ⟨⟩
    rfl
  · rintro rfl
    exact .done t

@[simp] theorem not_calls_pure {t : τ} : ¬ (pure t : Prog ρ ε τ).Calls ends d := by
  rintro ⟨⟩

@[simp] theorem not_raises_pure {t : τ} : ¬ (pure t : Prog ρ ε τ).Raises ends e := by
  rintro ⟨⟩

@[simp] theorem yields_fail : (fail e : Prog ρ ε τ).Yields ends o ↔ o = .error e := by
  constructor
  · rintro ⟨⟩
    rfl
  · rintro rfl
    exact .fail e

@[simp] theorem not_calls_fail : ¬ (fail e : Prog ρ ε τ).Calls ends d := by
  rintro ⟨⟩

@[simp] theorem raises_fail {e' : ε} : (fail e : Prog ρ ε τ).Raises ends e' ↔ e' = e := by
  constructor
  · rintro ⟨⟩
    rfl
  · rintro rfl
    exact .here _

@[simp] theorem yields_ask {o : Except ε (ρ c)} : (ask c).Yields ends o ↔ ends c o := by
  constructor
  · intro h
    cases h with
    | failed he => exact he
    | answered hr h =>
      cases h
      exact hr
  · intro h
    cases o with
    | error e => exact .failed h
    | ok r => exact .answered h (.done r)

@[simp] theorem calls_ask : (ask c : Prog ρ ε (ρ c)).Calls ends d ↔ d = c := by
  constructor
  · intro h
    cases h with
    | here => rfl
    | later _ h => cases h
  · rintro rfl
    exact .here

@[simp] theorem not_raises_ask : ¬ (ask c : Prog ρ ε (ρ c)).Raises ends e := by
  intro h
  cases h with
  | later _ h => cases h

/-- What a list of programs calls. -/
theorem calls_each {f : α → Prog ρ ε τ} {l : List α} (h : (each f l).Calls ends d) :
    ∃ a ∈ l, (f a).Calls ends d := by
  induction l with
  | nil => exact absurd h not_calls_pure
  | cons a l ih =>
    rw [each, calls_bind] at h
    rcases h with h | ⟨t, -, h⟩
    · exact ⟨a, List.mem_cons_self, h⟩
    · rw [calls_bind] at h
      rcases h with h | ⟨ts, -, h⟩
      · obtain ⟨b, hb, h⟩ := ih h
        exact ⟨b, List.mem_cons_of_mem a hb, h⟩
      · exact absurd h not_calls_pure

theorem raises_each {f : α → Prog ρ ε τ} {l : List α} (h : (each f l).Raises ends e) :
    ∃ a ∈ l, (f a).Raises ends e := by
  induction l with
  | nil => exact absurd h not_raises_pure
  | cons a l ih =>
    rw [each, raises_bind] at h
    rcases h with h | ⟨t, -, h⟩
    · exact ⟨a, List.mem_cons_self, h⟩
    · rw [raises_bind] at h
      rcases h with h | ⟨ts, -, h⟩
      · obtain ⟨b, hb, h⟩ := ih h
        exact ⟨b, List.mem_cons_of_mem a hb, h⟩
      · exact absurd h not_raises_pure

theorem yields_each {f : α → Prog ρ ε τ} {l : List α} {ts : List τ}
    (h : (each f l).Yields ends (.ok ts)) :
    List.Forall₂ (fun a t ↦ (f a).Yields ends (.ok t)) l ts := by
  induction l generalizing ts with
  | nil =>
    rw [each, yields_pure] at h
    obtain rfl := Except.ok.inj h
    exact .nil
  | cons a l ih =>
    rw [each, yields_bind] at h
    rcases h with ⟨t, ht, h⟩ | ⟨e, -, h⟩
    · rw [yields_bind] at h
      rcases h with ⟨ts', hts, h⟩ | ⟨e, -, h⟩
      · rw [yields_pure] at h
        obtain rfl := Except.ok.inj h
        exact .cons ht (ih hts)
      · cases h
    · cases h

end Prog

/-! ### Programs that call each other -/

section

open Prog

variable {σ : Type} {ρ : σ → Type} {ε : Type} (body : (c : σ) → Prog ρ ε (ρ c))

/-- The answer to a call, with calls nested as deep as there is fuel. -/
def eval : ℕ → (c : σ) → Option (Except ε (ρ c))
  | 0, _ => none
  | n + 1, c => (body c).run (eval n)

def Returns (c : σ) (o : Except ε (ρ c)) : Prop := ∃ n, eval body n c = some o

/-- A call makes another. -/
def Called (c d : σ) : Prop := (body c).Calls (Returns body) d

def Reached : σ → σ → Prop := Relation.ReflTransGen (Called body)

variable {body} {τ : Type} {c d : σ} {o o' : Except ε (ρ c)} {e : ε} {m n : ℕ} {p : Prog ρ ε τ}

theorem run_mono {a a' : (c : σ) → Option (Except ε (ρ c))} (h : ∀ c o, a c = some o → a' c = some o)
    {o : Except ε τ} (hp : p.run a = some o) : p.run a' = some o := by
  induction p with
  | done t => exact hp
  | fail e => exact hp
  | call c next ih =>
    rw [run] at hp ⊢
    cases hc : a c with
    | none =>
      rw [hc] at hp
      cases hp
    | some answer =>
      rw [hc] at hp
      rw [h c answer hc]
      cases answer with
      | error e => exact hp
      | ok r => exact ih r hp

theorem eval_mono (hmn : m ≤ n) (h : eval body m c = some o) : eval body n c = some o := by
  induction m generalizing n c with
  | zero => cases h
  | succ m ih =>
    obtain ⟨n, rfl⟩ := Nat.exists_eq_add_of_le' hmn
    exact run_mono (fun d o hd ↦ ih (Nat.le_add_left m n) hd) h

theorem Returns.unique (h : Returns body c o) (h' : Returns body c o') : o = o' := by
  obtain ⟨m, hm⟩ := h
  obtain ⟨n, hn⟩ := h'
  have hm' := eval_mono (le_max_left m n) hm
  rw [eval_mono (le_max_right m n) hn] at hm'
  exact (Option.some.inj hm').symm

theorem yields_of_run {o : Except ε τ} (h : p.run (eval body n) = some o) :
    p.Yields (Returns body) o := by
  induction p with
  | done t => exact Option.some.inj h ▸ .done t
  | fail e => exact Option.some.inj h ▸ .fail e
  | call c next ih =>
    rw [run] at h
    cases hc : eval body n c with
    | none =>
      rw [hc] at h
      cases h
    | some answer =>
      rw [hc] at h
      cases answer with
      | error e => exact Option.some.inj h ▸ .failed ⟨n, hc⟩
      | ok r => exact .answered ⟨n, hc⟩ (ih r h)

theorem exists_run {o : Except ε τ} (h : p.Yields (Returns body) o) :
    ∃ n, p.run (eval body n) = some o := by
  induction h with
  | done t => exact ⟨0, rfl⟩
  | fail e => exact ⟨0, rfl⟩
  | failed he =>
    obtain ⟨n, hn⟩ := he
    exact ⟨n, by rw [run, hn]⟩
  | answered hr _ ih =>
    obtain ⟨m, hm⟩ := hr
    obtain ⟨n, hn⟩ := ih
    refine ⟨max m n, ?_⟩
    rw [run, eval_mono (le_max_left m n) hm]
    exact run_mono (fun d o hd ↦ eval_mono (le_max_right m n) hd) hn

/-- A call comes to what its body comes to. -/
theorem returns_iff : Returns body c o ↔ (body c).Yields (Returns body) o := by
  constructor
  · rintro ⟨n, hn⟩
    cases n with
    | zero => cases hn
    | succ n => exact yields_of_run hn
  · intro h
    obtain ⟨n, hn⟩ := exists_run h
    exact ⟨n + 1, hn⟩

/-- A program ends when its calls do. -/
theorem exists_yields (h : ∀ d, p.Calls (Returns body) d → ∃ o, Returns body d o) :
    ∃ o, p.Yields (Returns body) o := by
  induction p with
  | done t => exact ⟨_, .done t⟩
  | fail e => exact ⟨_, .fail e⟩
  | call c next ih =>
    obtain ⟨answer, hanswer⟩ := h c .here
    cases answer with
    | error e => exact ⟨_, .failed hanswer⟩
    | ok r =>
      obtain ⟨o, ho⟩ := ih r fun d hd ↦ h d (.later hanswer hd)
      exact ⟨o, .answered hanswer ho⟩

theorem exists_eval {o : Except ε τ} (h : p.run (eval body n) = some o)
    (hd : p.Calls (Returns body) d) : ∃ o, eval body n d = some o := by
  induction hd with
  | @here c next =>
    rw [run] at h
    cases hc : eval body n c with
    | none =>
      rw [hc] at h
      cases h
    | some answer => exact ⟨answer, rfl⟩
  | @later c d next r hr _ ih =>
    rw [run] at h
    cases hc : eval body n c with
    | none =>
      rw [hc] at h
      cases h
    | some answer =>
      obtain rfl := Returns.unique ⟨n, hc⟩ hr
      rw [hc] at h
      exact ih h

/-- A call ends exactly when no chain of calls from it goes on forever. -/
theorem returns_iff_acc : (∃ o, Returns body c o) ↔ Acc (fun b a ↦ Called body a b) c := by
  constructor
  · rintro ⟨o, n, hn⟩
    induction n generalizing c with
    | zero => cases hn
    | succ n ih =>
      refine .intro c fun d hd ↦ ?_
      obtain ⟨o', ho'⟩ := exists_eval hn hd
      exact ih _ ho'
  · intro h
    induction h with
    | intro c _ ih =>
      obtain ⟨o, ho⟩ := exists_yields ih
      exact ⟨o, returns_iff.2 ho⟩

/-- A call that a chain of calls without an end begins with does not end. -/
theorem not_returns_of_chain {f : ℕ → σ} (hf : ∀ n, Called body (f n) (f (n + 1))) :
    ¬ ∃ o, Returns body (f 0) o := by
  intro h
  exact not_acc_iff_exists_descending_chain.2 ⟨f, rfl, hf⟩ (returns_iff_acc.1 h)

/-- A failure is passed on. -/
theorem yields_of_calls (hd : p.Calls (Returns body) d) (he : Returns body d (.error e)) :
    p.Yields (Returns body) (.error e) := by
  induction hd with
  | here => exact .failed he
  | later hr _ ih => exact .answered hr (ih he)

theorem Reached.fails (h : Reached body c d) (he : Returns body d (.error e)) :
    Returns body c (.error e) := by
  induction h using Relation.ReflTransGen.head_induction_on with
  | refl => exact he
  | head hcd _ ih => exact returns_iff.2 (yields_of_calls hcd ih)

theorem raises_or_calls (h : p.Yields (Returns body) (.error e)) :
    p.Raises (Returns body) e ∨ ∃ d, p.Calls (Returns body) d ∧ Returns body d (.error e) := by
  generalize ho : (Except.error e : Except ε τ) = o at h
  induction h with
  | done t => cases ho
  | fail e' =>
    obtain rfl := Except.error.inj ho
    exact .inl (.here e)
  | failed he =>
    obtain rfl := Except.error.inj ho
    exact .inr ⟨_, .here, he⟩
  | answered hr _ ih =>
    exact (ih ho).imp (.later hr) fun ⟨d, hd, he⟩ ↦ ⟨d, .later hr hd, he⟩

/-- A failure was raised somewhere. -/
theorem exists_raises (h : Returns body c (.error e)) :
    ∃ d, Reached body c d ∧ (body d).Raises (Returns body) e := by
  have hacc := returns_iff_acc.1 ⟨_, h⟩
  induction hacc with
  | intro c _ ih =>
    rcases raises_or_calls (returns_iff.1 h) with hraises | ⟨d, hd, he⟩
    · exact ⟨c, .refl, hraises⟩
    · obtain ⟨b, hb, hraises⟩ := ih d hd he
      exact ⟨b, .head hd hb, hraises⟩

theorem Reached.acc {r : σ → σ → Prop} (hr : ∀ a b, r a b → Called body a b)
    (h : Reached body c d) (hc : ∃ o, Returns body c o) : Acc (fun b a ↦ r a b) d := by
  have hd : Acc (fun b a ↦ Called body a b) d := by
    have hacc := returns_iff_acc.1 hc
    induction h using Relation.ReflTransGen.head_induction_on with
    | refl => exact hacc
    | head hcd _ ih =>
      have hnext := hacc.inv hcd
      exact ih (returns_iff_acc.2 hnext) hnext
  exact Subrelation.accessible (fun h ↦ hr _ _ h) hd

/-- Steps that lower a rank come to an end by themselves, the others by assumption. -/
theorem acc_of_layers {r u : σ → σ → Prop} {rank : σ → ℕ} {a : σ}
    (hle : ∀ x y, r x y → rank y ≤ rank x) (hlow : ∀ x y, r x y → u x y ∨ rank y < rank x)
    (h : ∀ x, Relation.ReflTransGen r a x → Acc (fun y x ↦ u x y) x) :
    Acc (fun y x ↦ r x y) a := by
  induction hk : rank a using Nat.strong_induction_on generalizing a with
  | _ k lower =>
    have hlayer : ∀ x, Acc (fun y x ↦ u x y) x → Relation.ReflTransGen r a x → rank x = k →
        Acc (fun y x ↦ r x y) x := by
      intro x hx
      induction hx with
      | intro x _ ih =>
        intro hax hxk
        refine .intro x fun y hxy ↦ ?_
        have hay := hax.tail hxy
        rcases (hle x y hxy).lt_or_eq with hlt | heq
        · exact lower (rank y) (hxk ▸ hlt) (fun z hz ↦ h z (hay.trans hz)) rfl
        · rcases hlow x y hxy with hu | hlt
          · exact ih y hu hay (heq.trans hxk)
          · exact absurd heq hlt.ne
    exact hlayer a (h a .refl) .refl hk

end

end Counted.Foundations
