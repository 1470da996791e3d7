import Mathlib

namespace Counted.Foundations

/-- Steps to be taken one after another, the later ones in time of the first. -/
structure Journey (α : Type) where
  time : α → ℤ
  steps : List (α → Bool)
  late : ℤ → ℤ → Bool

/-- How many steps are taken, when the first one was, and when the last. -/
structure Progress where
  stage : ℕ
  anchor : ℤ
  previous : ℤ

namespace Journey

variable {α : Type} (j : Journey α)

def takes (i : ℕ) (a : α) : Bool := (j.steps[i]?).any (· a)

/-- The first step is taken at the first chance, and every later one as soon as it can be. -/
def follow (p : Progress) (a : α) : Progress :=
  if j.takes p.stage a ∧
      (p.stage = 0 ∨ p.previous < j.time a ∧ j.late p.anchor (j.time a) = false) then
    ⟨p.stage + 1, if p.stage = 0 then j.time a else p.anchor, j.time a⟩
  else p

def start : Progress := ⟨0, 0, 0⟩

def progress (l : List α) : Progress := l.foldl j.follow start

/-- A list of members that takes the steps in order, from the earliest first step there is. -/
structure Chain (l w : List α) : Prop where
  mem : ∀ a ∈ w, a ∈ l
  takes : ∀ i a, w[i]? = some a → j.takes i a = true
  increasing : w.Pairwise (fun a b ↦ j.time a < j.time b)
  first : ∀ a, w.head? = some a → ∀ b ∈ l, j.takes 0 b → j.time a ≤ j.time b
  inTime : ∀ a, w.head? = some a → ∀ b ∈ w.tail, j.late (j.time a) (j.time b) = false

variable {j} {l w : List α} {e x : α} {p : Progress}

theorem progress_concat (l : List α) (e : α) :
    j.progress (l ++ [e]) = j.follow (j.progress l) e := by
  rw [progress, List.foldl_append]
  rfl

theorem takes_lt {i : ℕ} {a : α} (h : j.takes i a = true) : i < j.steps.length := by
  rw [takes] at h
  by_contra hn
  rw [List.getElem?_eq_none (not_lt.1 hn)] at h
  cases h

theorem Chain.subset {m : List α} (h : j.Chain l w) (hc : ∀ a ∈ w, a ∈ m)
    (hfirst : ∀ a ∈ w, ∀ b ∈ m, j.takes 0 b = true → (∀ b' ∈ l, j.takes 0 b' → j.time a ≤ j.time b') →
      j.time a ≤ j.time b) : j.Chain m w :=
  ⟨hc, h.takes, h.increasing, fun a ha b hb h0 ↦
    hfirst a (List.mem_of_mem_head? ha) b hb h0 (h.first a ha), h.inTime⟩

theorem Chain.init (h : j.Chain l (w ++ [x])) : j.Chain l w where
  mem a ha := h.mem a (List.mem_append_left _ ha)
  takes i a ha := h.takes i a (List.getElem?_append_left
    (List.getElem?_eq_some_iff.1 ha).1 ▸ ha)
  increasing := (List.pairwise_append.1 h.increasing).1
  first a ha := h.first a (by rw [List.head?_append, ha]; rfl)
  inTime a ha b hb := h.inTime a (by rw [List.head?_append, ha]; rfl) b (by
    cases w with
    | nil => cases ha
    | cons => exact List.mem_append_left _ hb)

theorem Chain.shorter (h : j.Chain l w) {n : ℕ} (hn : n ≤ w.length) :
    ∃ d, j.Chain l d ∧ d.length = n := by
  induction w using List.reverseRecOn with
  | nil => exact ⟨[], h, (Nat.le_zero.1 hn).symm⟩
  | append_singleton w x ih =>
    rcases hn.eq_or_lt with rfl | hlt
    · exact ⟨_, h, rfl⟩
    · rw [List.length_append, List.length_singleton] at hlt
      exact ih h.init (by omega)

theorem chain_nil : j.Chain l [] := by
  refine ⟨?_, ?_, .nil, ?_, ?_⟩ <;> simp

/-- A chain of a list in order of time either leaves out the last member or ends with it. -/
theorem Chain.cases (h : j.Chain (l ++ [e]) w) (hle : ∀ a ∈ l, j.time a ≤ j.time e) :
    j.Chain l w ∨ ∃ d, w = d ++ [e] ∧ j.Chain l d := by
  have hshrink {d : List α} (hd : j.Chain (l ++ [e]) d) (hin : ∀ a ∈ d, a ∈ l) : j.Chain l d :=
    hd.subset hin (fun a _ b hb h0 hmin ↦ hmin b (List.mem_append_left _ hb) h0)
  rcases List.eq_nil_or_concat w with rfl | ⟨d, x, rfl⟩
  · exact .inl chain_nil
  rw [List.concat_eq_append] at *
  have hlast : ∀ a ∈ l ++ [e], j.time a ≤ j.time e := by
    intro a ha
    rcases List.mem_append.1 ha with ha | ha
    · exact hle a ha
    · rw [List.mem_singleton.1 ha]
  have hxe := hlast x (h.mem x (by simp))
  have hd : ∀ a ∈ d, a ∈ l := by
    intro a ha
    have hlt := (List.pairwise_append.1 h.increasing).2.2 a ha x (by simp)
    rcases List.mem_append.1 (h.mem a (List.mem_append_left _ ha)) with ha' | ha'
    · exact ha'
    · rw [List.mem_singleton.1 ha'] at hlt
      exact absurd hxe (not_le.2 hlt)
  rcases List.mem_append.1 (h.mem x (by simp)) with hx | hx
  · refine .inl (hshrink h (fun a ha ↦ ?_))
    rcases List.mem_append.1 ha with ha | ha
    · exact hd a ha
    · rwa [List.mem_singleton.1 ha]
  · rw [List.mem_singleton.1 hx] at h ⊢
    exact .inr ⟨d, rfl, hshrink h.init hd⟩

theorem Chain.extend (h : j.Chain l w) (hle : ∀ a ∈ l, j.time a ≤ j.time e) :
    j.Chain (l ++ [e]) w := by
  refine h.subset (fun a ha ↦ List.mem_append_left _ (h.mem a ha)) (fun a ha b hb h0 hmin ↦ ?_)
  rcases List.mem_append.1 hb with hb | hb
  · exact hmin b hb h0
  · rw [List.mem_singleton.1 hb]
    exact hle a (h.mem a ha)

theorem Chain.lt_of_last (h : j.Chain l w) {t : ℤ} (ht : ∀ a, w.getLast? = some a → j.time a < t) :
    ∀ a ∈ w, j.time a < t := by
  rcases List.eq_nil_or_concat w with rfl | ⟨d, x, rfl⟩
  · simp
  rw [List.concat_eq_append] at *
  have hx := ht x (by simp)
  intro a ha
  rcases List.mem_append.1 ha with ha | ha
  · exact ((List.pairwise_append.1 h.increasing).2.2 a ha x (by simp)).trans hx
  · rwa [List.mem_singleton.1 ha]

theorem Chain.concat (h : j.Chain l w) (hle : ∀ a ∈ l, j.time a ≤ j.time e)
    (ht : j.takes w.length e = true) (hlast : ∀ a, w.getLast? = some a → j.time a < j.time e)
    (hlate : ∀ a, w.head? = some a → j.late (j.time a) (j.time e) = false)
    (hnone : w = [] → ∀ a ∈ l, j.takes 0 a = false) : j.Chain (l ++ [e]) (w ++ [e]) where
  mem a ha := by
    rcases List.mem_append.1 ha with ha | ha
    · exact List.mem_append_left _ (h.mem a ha)
    · exact List.mem_append_right _ ha
  takes i a ha := by
    rw [List.getElem?_append] at ha
    split_ifs at ha with hi
    · exact h.takes i a ha
    · obtain ⟨hlen, rfl⟩ := List.getElem?_eq_some_iff.1 ha
      rw [List.length_singleton] at hlen
      obtain rfl : i = w.length := by omega
      simpa using ht
  increasing := by
    refine List.pairwise_append.2 ⟨h.increasing, List.pairwise_singleton _ _, fun a ha b hb ↦ ?_⟩
    rw [List.mem_singleton.1 hb]
    exact h.lt_of_last hlast a ha
  first a ha b hb h0 := by
    cases w with
    | nil =>
      obtain rfl : e = a := Option.some.inj ha
      rcases List.mem_append.1 hb with hb | hb
      · rw [hnone rfl b hb] at h0
        cases h0
      · rw [List.mem_singleton.1 hb]
    | cons x w => exact (h.extend hle).first a ha b hb h0
  inTime a ha b hb := by
    cases w with
    | nil => cases hb
    | cons x w =>
      rcases List.mem_append.1 hb with hb | hb
      · exact h.inTime a ha b hb
      · rw [List.mem_singleton.1 hb]
        exact hlate a ha

/-- What the scan knows: a longest chain, which ends as early as any of its length. -/
structure Greedy (j : Journey α) (l : List α) (p : Progress) : Prop where
  reached : ∃ w, j.Chain l w ∧ w.length = p.stage ∧ (∀ a, w.head? = some a → j.time a = p.anchor) ∧
    ∀ a, w.getLast? = some a → j.time a = p.previous
  best : ∀ w, j.Chain l w → w.length ≤ p.stage ∧
    (w.length = p.stage → ∀ a, w.getLast? = some a → p.previous ≤ j.time a)
  none : p.stage = 0 → j.steps ≠ [] → ∀ a ∈ l, j.takes 0 a = false

theorem greedy_nil : Greedy j [] start where
  reached := ⟨[], chain_nil, rfl, by simp, by simp⟩
  best w hc := by
    have hnil : w = [] := List.eq_nil_iff_forall_not_mem.2 (fun a ha ↦ by simpa using hc.mem a ha)
    simp [hnil]
  none _ _ := by simp

theorem Greedy.takes_zero (h : Greedy j l p) (hp : 0 < p.stage) :
    ∃ a ∈ l, j.takes 0 a = true ∧ j.time a = p.anchor ∧
      ∀ b ∈ l, j.takes 0 b = true → j.time a ≤ j.time b := by
  obtain ⟨w, hw, hlen, hanchor, -⟩ := h.reached
  cases w with
  | nil =>
    rw [List.length_nil] at hlen
    omega
  | cons a w => exact ⟨a, hw.mem a (by simp), hw.takes 0 a rfl, hanchor a rfl, hw.first a rfl⟩

/-- Of what takes the next step too late nothing is lost. -/
theorem Greedy.stay (h : Greedy j l p) (hle : ∀ a ∈ l, j.time a ≤ j.time e)
    (hno : ¬ (j.takes p.stage e = true ∧
      (p.stage = 0 ∨ p.previous < j.time e ∧ j.late p.anchor (j.time e) = false))) :
    Greedy j (l ++ [e]) p := by
  obtain ⟨w, hw, hlen, hanchor, hprevious⟩ := h.reached
  -- a chain that ends with the new member is one of those known, and shorter
  have hshort {d : List α} (hd : j.Chain (l ++ [e]) (d ++ [e])) (hd' : j.Chain l d) :
      d.length < p.stage := by
    obtain ⟨hle', hbest⟩ := h.best d hd'
    refine lt_of_le_of_ne hle' (fun heq ↦ hno ?_)
    have htakes := hd.takes d.length e (by simp)
    rw [heq] at htakes
    refine ⟨htakes, Nat.eq_zero_or_pos p.stage |>.imp_right (fun hpos ↦ ?_)⟩
    obtain ⟨b, hb, h0, htime, hmin⟩ := h.takes_zero hpos
    rcases List.eq_nil_or_concat d with rfl | ⟨d, x, rfl⟩
    · rw [List.length_nil] at heq
      omega
    rw [List.concat_eq_append] at *
    refine ⟨(hbest heq x (by simp)).trans_lt
      ((List.pairwise_append.1 hd.increasing).2.2 x (by simp) e (by simp)), ?_⟩
    obtain ⟨a, ha⟩ : ∃ a, (d ++ [x]).head? = some a := by
      cases d <;> exact ⟨_, rfl⟩
    have hsame : j.time a = p.anchor := by
      have hmem := List.mem_of_mem_head? ha
      refine le_antisymm ?_ ?_
      · exact htime ▸ hd'.first a ha b hb h0
      · refine htime ▸ hmin a (hd'.mem a hmem) (hd'.takes 0 a ?_)
        rwa [← List.head?_eq_getElem?]
    rw [← hsame]
    refine hd.inTime a (by rw [List.head?_append, ha]; rfl) e ?_
    cases d <;> simp
  refine ⟨⟨w, hw.extend hle, hlen, hanchor, hprevious⟩, fun d hd ↦ ?_, fun hp hs a ha ↦ ?_⟩
  · rcases hd.cases hle with hd' | ⟨d, rfl, hd'⟩
    · exact h.best d hd'
    · have hlt := hshort hd hd'
      rw [List.length_append, List.length_singleton]
      refine ⟨hlt, fun _ a ha ↦ ?_⟩
      obtain rfl : e = a := by simpa using ha
      obtain ⟨x, hx⟩ : ∃ x, w.getLast? = some x := by
        cases w with
        | nil =>
          rw [List.length_nil] at hlen
          omega
        | cons x w => exact ⟨_, List.getLast?_cons⟩
      exact hprevious x hx ▸ hle x (hw.mem x (List.mem_of_getLast? hx))
  · rcases List.mem_append.1 ha with ha | ha
    · exact h.none hp hs a ha
    · rw [List.mem_singleton.1 ha]
      exact Bool.eq_false_iff.2 (fun h0 ↦ hno ⟨hp ▸ h0, .inl hp⟩)

theorem Greedy.advance (h : Greedy j l p) (hle : ∀ a ∈ l, j.time a ≤ j.time e)
    (ht : j.takes p.stage e = true)
    (hok : p.stage = 0 ∨ p.previous < j.time e ∧ j.late p.anchor (j.time e) = false) :
    Greedy j (l ++ [e])
      ⟨p.stage + 1, if p.stage = 0 then j.time e else p.anchor, j.time e⟩ := by
  obtain ⟨w, hw, hlen, hanchor, hprevious⟩ := h.reached
  have hsteps : j.steps ≠ [] := List.ne_nil_of_length_pos ((Nat.zero_le _).trans_lt (takes_lt ht))
  have hempty : p.stage = 0 ↔ w = [] := by rw [← hlen, List.length_eq_zero_iff]
  have hpos {a : α} (ha : a ∈ w) : p.stage ≠ 0 := fun h0 ↦ by
    rw [hempty.1 h0] at ha
    cases ha
  refine ⟨⟨w ++ [e], ?_, ?_, ?_, ?_⟩, fun d hd ↦ ?_, fun h0 ↦ by cases h0⟩
  · refine hw.concat hle (hlen ▸ ht) (fun a ha ↦ ?_) (fun a ha ↦ ?_) (fun hw0 ↦ ?_)
    · rw [hprevious a ha]
      exact (hok.resolve_left (hpos (List.mem_of_getLast? ha))).1
    · rw [hanchor a ha]
      exact (hok.resolve_left (hpos (List.mem_of_mem_head? ha))).2
    · exact h.none (hempty.2 hw0) hsteps
  · rw [List.length_append, hlen, List.length_singleton]
  · intro a ha
    cases w with
    | nil =>
      obtain rfl : e = a := Option.some.inj ha
      rw [if_pos (hempty.2 rfl)]
    | cons x w =>
      rw [if_neg (mt hempty.1 (by simp))]
      exact hanchor a ha
  · intro a ha
    obtain rfl : e = a := by simpa using ha
    rfl
  · rcases hd.cases hle with hd' | ⟨d, rfl, hd'⟩
    · have hlt := (h.best d hd').1
      exact ⟨Nat.le_succ_of_le hlt, fun heq ↦ by dsimp only at heq; omega⟩
    · have hlt := (h.best d hd').1
      rw [List.length_append, List.length_singleton]
      refine ⟨Nat.succ_le_succ hlt, fun _ a ha ↦ ?_⟩
      obtain rfl : e = a := by simpa using ha
      rfl

theorem Greedy.follow (h : Greedy j l p) (hle : ∀ a ∈ l, j.time a ≤ j.time e) :
    Greedy j (l ++ [e]) (j.follow p e) := by
  rw [Journey.follow]
  by_cases hgo : j.takes p.stage e = true ∧
      (p.stage = 0 ∨ p.previous < j.time e ∧ j.late p.anchor (j.time e) = false)
  · rw [if_pos hgo]
    exact h.advance hle hgo.1 hgo.2
  · rw [if_neg hgo]
    exact h.stay hle hgo

/-- Over a list in order of time the scan finds a longest chain. -/
theorem greedy_progress (hl : l.Pairwise (fun a b ↦ j.time a ≤ j.time b)) :
    Greedy j l (j.progress l) := by
  induction l using List.reverseRecOn with
  | nil => exact greedy_nil
  | append_singleton l e ih =>
    obtain ⟨hl, -, hle⟩ := List.pairwise_append.1 hl
    rw [progress_concat]
    exact (ih hl).follow (fun a ha ↦ hle a ha e (by simp))

/-- A step is reached exactly when there is a chain up to it. -/
theorem stage_iff (hl : l.Pairwise (fun a b ↦ j.time a ≤ j.time b)) (k : ℕ) :
    k < (j.progress l).stage ↔ ∃ w, j.Chain l w ∧ w.length = k + 1 := by
  have hg := greedy_progress hl
  constructor
  · intro hk
    obtain ⟨w, hw, hlen, -, -⟩ := hg.reached
    exact hw.shorter (by omega)
  · rintro ⟨w, hw, hlen⟩
    have := (hg.best w hw).1
    omega

end Journey

end Counted.Foundations
