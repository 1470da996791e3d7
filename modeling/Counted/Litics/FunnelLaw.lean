import Counted.Analytics.Collation
import Counted.Foundations.Chains
import Counted.Kernel.Whole
import Counted.Litics.Raw

namespace Counted.Litics

open Analytics Foundations Calendar

section

variable (ar : Arithmetic) (q : FunnelQuery)

/-- When an attempt that starts then is over. -/
def deadlineOf (ts : ℤ) : JsNumber :=
  minNumber q.bounds.toMs (ar.add (ts : JsNumber) (q.within.getD (7 * dayMs : ℤ)))

/-- Events of one actor, one for each step up to one, each later than the one before it, and the
last within the conversion window of the first. -/
structure Attempt (events : List RawEvent) (actor : JsString) (k : ℕ) (w : List RawEvent) :
    Prop where
  length : w.length = k + 1
  mem : ∀ e ∈ w, e ∈ events ∧ e.actor = actor
  steps : ∀ (i : ℕ) (e : RawEvent), w[i]? = some e → ∃ name, (funnelSteps q)[i]? = some name ∧ eventType e = some name
  increasing : w.Pairwise (fun a b ↦ a.ts < b.ts)
  inTime : ∀ first last, w.head? = some first → w.tail.getLast? = some last →
    (deadlineOf ar q first.ts).le last.ts = false

/-- An attempt that starts with the actor's earliest event of the first step. -/
structure FirstAttempt (events : List RawEvent) (actor : JsString) (k : ℕ) (w : List RawEvent) :
    Prop extends Attempt ar q events actor k w where
  earliest : ∀ first, w.head? = some first → ∀ e ∈ events, e.actor = actor →
    eventType e = some q.steps.1 → first.ts ≤ e.ts

/-- The steps of a funnel as those of a journey. -/
def journey : Journey RawEvent where
  time e := e.ts
  steps := (funnelSteps q).map (fun name e ↦ eventType e = some name)
  late start ts := (deadlineOf ar q start).le (ts : JsNumber)

/-- How far an actor gets. -/
def visit (events : List RawEvent) (actor : JsString) : Progress :=
  (journey ar q).progress (events.filter (fun e ↦ e.actor = actor))

/-- The actors that get past a step. -/
def reachers (events : List RawEvent) (k : ℕ) : Finset JsString :=
  (events.map (·.actor)).toFinset.filter (fun actor ↦ k < (visit ar q events actor).stage)

/-- What the cursor knows of the events it has passed. -/
structure Follows (events : List RawEvent) (c : FunnelCursor) : Prop where
  actor : c.actor = events.getLast?.map (·.actor)
  stage : ∀ actor, c.actor = some actor → c.stage = (visit ar q events actor).stage
  fields : ∀ actor, c.actor = some actor → 0 < c.stage →
    c.previous = ((visit ar q events actor).previous : ℤ) ∧
      c.deadline = deadlineOf ar q (visit ar q events actor).anchor
  counts : c.counts.length = 3 ∧ ∀ k < 3, c.counts[k]? = some (reachers ar q events k).card

end

variable {ar : Arithmetic} {q : FunnelQuery} {events : List RawEvent} {e : RawEvent}
  {actor : JsString} {k : ℕ}

theorem journey_takes (i : ℕ) (e : RawEvent) : (journey ar q).takes i e = true ↔
    ∃ name, (funnelSteps q)[i]? = some name ∧ eventType e = some name := by
  rw [Journey.takes, journey, List.getElem?_map]
  cases (funnelSteps q)[i]? <;> simp

theorem visit_concat : visit ar q (events ++ [e]) actor =
    if e.actor = actor then (journey ar q).follow (visit ar q events actor) e
    else visit ar q events actor := by
  rw [visit, List.filter_append, List.filter_singleton]
  split_ifs with h
  · rw [decide_eq_true h, cond_true, Journey.progress_concat]
    rfl
  · rw [decide_eq_false h, cond_false, List.append_nil]
    rfl

theorem visit_absent (h : ∀ e ∈ events, e.actor ≠ actor) :
    visit ar q events actor = Journey.start := by
  rw [visit, List.filter_eq_nil_iff.2 (fun e he ↦ by simpa using h e he)]
  rfl

theorem mem_reachers : actor ∈ reachers ar q events k ↔ k < (visit ar q events actor).stage := by
  rw [reachers, Finset.mem_filter, List.mem_toFinset, and_iff_right_iff_imp]
  intro h
  by_contra hn
  have habsent : ∀ e ∈ events, e.actor ≠ actor := by
    intro e he heq
    exact hn (List.mem_map.2 ⟨e, he, heq⟩)
  rw [visit_absent habsent] at h
  cases h

theorem reachers_stay (h : visit ar q (events ++ [e]) e.actor = visit ar q events e.actor) :
    reachers ar q (events ++ [e]) k = reachers ar q events k := by
  ext actor
  rw [mem_reachers, mem_reachers, visit_concat]
  rw [visit_concat, if_pos rfl] at h
  split_ifs with ha
  · rw [← ha, h]
  · rfl

theorem reachers_advance
    (h : (visit ar q (events ++ [e]) e.actor).stage = (visit ar q events e.actor).stage + 1) :
    (reachers ar q (events ++ [e]) k).card = (reachers ar q events k).card +
      if (visit ar q events e.actor).stage = k then 1 else 0 := by
  have hother {actor : JsString} (ha : e.actor ≠ actor) :
      visit ar q (events ++ [e]) actor = visit ar q events actor := by
    rw [visit_concat, if_neg ha]
  split_ifs with hk
  · have hnew : e.actor ∉ reachers ar q events k := by
      rw [mem_reachers]
      omega
    rw [← Finset.card_insert_of_notMem hnew]
    congr 1
    ext actor
    rw [mem_reachers, Finset.mem_insert, mem_reachers]
    by_cases ha : e.actor = actor
    · subst ha
      simp only [h, true_or, iff_true]
      omega
    · rw [hother ha, or_iff_right (Ne.symm ha)]
  · rw [add_zero]
    congr 1
    ext actor
    rw [mem_reachers, mem_reachers]
    by_cases ha : e.actor = actor
    · subst ha
      omega
    · rw [hother ha]

theorem follows_nil : Follows ar q [] ⟨none, 0, (0 : ℤ), (0 : ℤ), [0, 0, 0]⟩ where
  actor := rfl
  stage _ h := by cases h
  fields _ h := by cases h
  counts := ⟨rfl, fun k hk ↦ by
    have hempty : (reachers ar q [] k).card = 0 := rfl
    rw [hempty]
    interval_cases k <;> rfl⟩

/-- Events of one actor stand together. -/
theorem Follows.step {c : FunnelCursor} (h : Follows ar q events c)
    (hgroup : ∀ x, events.getLast? = some x → x.actor ≠ e.actor → ∀ y ∈ events, y.actor ≠ e.actor) :
    Follows ar q (events ++ [e]) (followEvent ar q c e) := by
  obtain ⟨d, hd⟩ : ∃ d, d = (if c.actor = some e.actor then c
    else { c with actor := some e.actor, stage := 0 }) := ⟨_, rfl⟩
  have hactor : d.actor = some e.actor := by
    rw [hd]
    split_ifs with ha
    · exact ha
    · rfl
  have hcounts : d.counts = c.counts := by
    rw [hd]
    split_ifs <;> rfl
  have hstage : d.stage = (visit ar q events e.actor).stage ∧ (0 < d.stage →
      d.previous = ((visit ar q events e.actor).previous : ℤ) ∧
        d.deadline = deadlineOf ar q (visit ar q events e.actor).anchor) := by
    rw [hd]
    split_ifs with ha
    · exact ⟨h.stage _ ha, h.fields _ ha⟩
    · refine ⟨?_, fun hpos ↦ by cases hpos⟩
      have habsent : ∀ y ∈ events, y.actor ≠ e.actor := by
        cases hl : events.getLast? with
        | none =>
          rw [List.getLast?_eq_none_iff] at hl
          simp [hl]
        | some x =>
          refine hgroup x hl (fun hx ↦ ha ?_)
          rw [h.actor, hl, Option.map_some, hx]
      rw [visit_absent habsent]
      rfl
  obtain ⟨p, hp⟩ : ∃ p, visit ar q events e.actor = p := ⟨_, rfl⟩
  have hvisit : visit ar q (events ++ [e]) e.actor = (journey ar q).follow p e := by
    rw [visit_concat, if_pos rfl, hp]
  rw [hp] at hstage
  have htakes : ((funnelSteps q)[d.stage]? = none ∨ eventType e ≠ (funnelSteps q)[d.stage]?) ↔
      ¬ (journey ar q).takes p.stage e = true := by
    rw [journey_takes, hstage.1]
    cases (funnelSteps q)[p.stage]? <;> simp
  have hlate : (0 < d.stage ∧ ((e.ts : JsNumber).le d.previous ∨ d.deadline.le (e.ts : JsNumber))) ↔
      ¬ (p.stage = 0 ∨ p.previous < e.ts ∧ (journey ar q).late p.anchor e.ts = false) := by
    rcases Nat.eq_zero_or_pos d.stage with h0 | hpos
    · simp [h0, ← hstage.1]
    · obtain ⟨hprevious, hdeadline⟩ := hstage.2 hpos
      have hne : p.stage ≠ 0 := by omega
      rw [hprevious, hdeadline, JsNumber.intCast_le]
      simp only [hpos, true_and, hne, false_or, decide_eq_true_eq, not_and_or, not_lt,
        Bool.not_eq_false, journey]
  have hlast : (events ++ [e]).getLast?.map (·.actor) = some e.actor := by simp
  have hsame (hno : ¬ ((journey ar q).takes p.stage e = true ∧ (p.stage = 0 ∨ p.previous < e.ts ∧
      (journey ar q).late p.anchor e.ts = false))) : Follows ar q (events ++ [e]) d := by
    have hstay : visit ar q (events ++ [e]) e.actor = p := by
      rw [hvisit, Journey.follow]
      exact if_neg hno
    refine ⟨hactor.trans hlast.symm, fun a ha ↦ ?_, fun a ha hpos ↦ ?_, ?_⟩
    · obtain rfl := Option.some.inj (hactor.symm.trans ha)
      rw [hstay]
      exact hstage.1
    · obtain rfl := Option.some.inj (hactor.symm.trans ha)
      rw [hstay]
      exact hstage.2 hpos
    · refine ⟨hcounts ▸ h.counts.1, fun k hk ↦ ?_⟩
      rw [hcounts, h.counts.2 k hk, reachers_stay (hstay.trans hp.symm)]
  have hfollow : followEvent ar q c e =
      if (funnelSteps q)[d.stage]? = none ∨ eventType e ≠ (funnelSteps q)[d.stage]? then d
      else if 0 < d.stage ∧ ((e.ts : JsNumber).le d.previous ∨ d.deadline.le (e.ts : JsNumber)) then d
      else { d with
        deadline := if d.stage = 0 then deadlineOf ar q e.ts else d.deadline
        counts := d.counts.modify d.stage (· + 1)
        previous := (e.ts : JsNumber)
        stage := d.stage + 1 } := by
    rw [hd]
    rfl
  rw [hfollow]
  by_cases hgo : (journey ar q).takes p.stage e = true
  · rw [if_neg (not_not.2 hgo ∘ htakes.1)]
    by_cases hok : p.stage = 0 ∨ p.previous < e.ts ∧ (journey ar q).late p.anchor e.ts = false
    · rw [if_neg (not_not.2 hok ∘ hlate.1)]
      have hnext : visit ar q (events ++ [e]) e.actor =
          ⟨p.stage + 1, if p.stage = 0 then e.ts else p.anchor, e.ts⟩ := by
        rw [hvisit, Journey.follow]
        exact if_pos ⟨hgo, hok⟩
      refine ⟨hactor.trans hlast.symm, fun a ha ↦ ?_, fun a ha hpos ↦ ?_, ?_⟩
      · obtain rfl := Option.some.inj (hactor.symm.trans ha)
        rw [hnext, hstage.1]
      · obtain rfl := Option.some.inj (hactor.symm.trans ha)
        rw [hnext]
        refine ⟨rfl, ?_⟩
        dsimp only
        rw [hstage.1]
        split_ifs with h0
        · rfl
        · exact (hstage.2 (by omega)).2
      · refine ⟨by rw [List.length_modify, hcounts, h.counts.1], fun k hk ↦ ?_⟩
        have hcard := @reachers_advance ar q events e k (by rw [hnext, hp])
        rw [hcard, hp, List.getElem?_modify, hcounts, h.counts.2 k hk, hstage.1]
        split_ifs <;> simp
    · rw [if_pos (hlate.2 hok)]
      exact hsame (fun hn ↦ hok hn.2)
  · rw [if_pos (htakes.2 hgo)]
    exact hsame (fun hn ↦ hgo hn.1)

theorem visitOrder_iff {a b : RawEvent} : visitOrder ar a b = true ↔
    ar.localeCompare a.actor b.actor = .lt ∨
      ar.localeCompare a.actor b.actor = .eq ∧ a.ts ≤ b.ts := by
  rw [visitOrder]
  cases ar.localeCompare a.actor b.actor <;> simp

section

variable (hc : Collates ar.toRuntime)

include hc

theorem visitOrder_trans {a b c : RawEvent} (hab : visitOrder ar a b = true)
    (hbc : visitOrder ar b c = true) : visitOrder ar a c = true := by
  have := hc.ordered
  rw [visitOrder_iff] at *
  rcases hab with hab | ⟨hab, hts⟩
  · refine .inl (Std.TransCmp.lt_of_lt_of_isLE hab ?_)
    rcases hbc with hbc | ⟨hbc, -⟩ <;> rw [hbc] <;> rfl
  · rcases hbc with hbc | ⟨hbc, hts'⟩
    · exact .inl (Std.TransCmp.lt_of_eq_of_lt hab hbc)
    · exact .inr ⟨Std.TransCmp.eq_trans hab hbc, hts.trans hts'⟩

theorem visitOrder_total (a b : RawEvent) : (visitOrder ar a b || visitOrder ar b a) = true := by
  rw [Bool.or_eq_true, visitOrder_iff, visitOrder_iff, hc.swap a.actor b.actor]
  cases ar.localeCompare a.actor b.actor with
  | lt => simp
  | eq => simpa using le_total a.ts b.ts
  | gt => simp

theorem ordered_pairwise (events : List RawEvent) :
    (events.mergeSort (visitOrder ar)).Pairwise (fun a b ↦ visitOrder ar a b = true) :=
  @List.pairwise_mergeSort _ (visitOrder ar) (fun _ _ _ ↦ visitOrder_trans hc)
    (visitOrder_total hc) events

theorem visitOrder_same {a b : RawEvent} (h : visitOrder ar a b = true) (hab : a.actor = b.actor) :
    a.ts ≤ b.ts := by
  rw [visitOrder_iff, hab, hc.refl] at h
  simpa using h

/-- In the order of visits no other actor comes between two events of one. -/
theorem actor_grouped (hactors : ∀ e ∈ events, ∃ n, e.actor = natText n) {x y : RawEvent}
    (hx : x ∈ events) (hy : y ∈ events) (hyx : y = x ∨ visitOrder ar y x = true)
    (hxe : visitOrder ar x e = true) (hne : x.actor ≠ e.actor) : y.actor ≠ e.actor := by
  intro heq
  rcases hyx with rfl | hyx
  · exact hne heq
  rw [visitOrder_iff] at hyx hxe
  rw [heq, hc.swap x.actor e.actor] at hyx
  obtain ⟨n, hn⟩ := hactors x hx
  obtain ⟨m, hm⟩ := hactors y hy
  have hdigits : ar.localeCompare x.actor e.actor ≠ .eq := by
    intro hs
    rw [hn, ← heq, hm] at hs
    rw [hn, ← heq, hm, hc.digits n m hs] at hne
    exact hne rfl
  rcases hxe with hxe | ⟨hxe, -⟩
  · rw [hxe] at hyx
    simp at hyx
  · exact hdigits hxe

theorem follows_ordered (hactors : ∀ e ∈ events, ∃ n, e.actor = natText n)
    (hl : events.Pairwise (fun a b ↦ visitOrder ar a b = true)) :
    Follows ar q events
      (events.foldl (followEvent ar q) ⟨none, 0, (0 : ℤ), (0 : ℤ), [0, 0, 0]⟩) := by
  induction events using List.reverseRecOn with
  | nil => exact follows_nil
  | append_singleton events e ih =>
    obtain ⟨hl, -, hle⟩ := List.pairwise_append.1 hl
    rw [List.forall_mem_append] at hactors
    rw [List.foldl_append]
    refine (ih hactors.1 hl).step (fun x hx hne y hy ↦ ?_)
    have hmem := List.mem_of_getLast? hx
    refine actor_grouped hc hactors.1 hmem hy ?_ (hle x hmem e (by simp)) hne
    obtain ⟨init, rfl⟩ := List.getLast?_eq_some_iff.1 hx
    rcases List.mem_append.1 hy with hy | hy
    · exact .inr ((List.pairwise_append.1 hl).2.2 y hy x (by simp))
    · exact .inl (List.mem_singleton.1 hy)

end

/-- A deadline that has passed stays passed. -/
theorem le_intCast_mono {x : JsNumber} {t u : ℤ} (h : x.le (t : JsNumber) = true) (htu : t ≤ u) :
    x.le (u : JsNumber) = true := by
  have hnum : (u : JsNumber) = .finite (u : Decimal) := rfl
  rcases Bool.or_eq_true .. ▸ h with hlt | heq
  · cases x with
    | finite d =>
      rw [JsNumber.le, hnum, JsNumber.lt, (Decimal.lt_iff _ _).2, Bool.true_or]
      have hd := (Decimal.lt_iff _ _).1 hlt
      rw [Decimal.intCast_toRat] at hd ⊢
      exact hd.trans_le (Int.cast_le.2 htu)
    | infinity n => rw [JsNumber.le, hnum, JsNumber.lt, show n = true from hlt, Bool.true_or]
    | nan => cases hlt
  · have hx : x = (t : JsNumber) := by
      rw [JsNumber.strictEq, Bool.and_eq_true, beq_iff_eq] at heq
      exact heq.2
    rw [hx, JsNumber.intCast_le]
    exact decide_eq_true htu

/-- The events `rawFunnel` looks at, in the order of visits. -/
def orderedEvents (ar : Arithmetic) (events : List RawEvent) (q : FunnelQuery) : List RawEvent :=
  (events.filter (fun event ↦
    (funnelSteps q).contains ((eventType event).getD []))).mergeSort (visitOrder ar)

theorem mem_orderedEvents {e : RawEvent} : e ∈ orderedEvents ar events q ↔
    e ∈ events ∧ (funnelSteps q).contains ((eventType e).getD []) = true := by
  rw [orderedEvents, (List.mergeSort_perm _ _).mem_iff, List.mem_filter]

theorem mem_of_step {i : ℕ} {name : JsString} (he : e ∈ events)
    (hi : (funnelSteps q)[i]? = some name) (ht : eventType e = some name) :
    e ∈ orderedEvents ar events q := by
  rw [mem_orderedEvents, ht, Option.getD_some, List.contains_iff_mem]
  exact ⟨he, List.mem_of_getElem? hi⟩

theorem chain_iff {w : List RawEvent} :
    (journey ar q).Chain ((orderedEvents ar events q).filter (fun e ↦ e.actor = actor)) w ∧
      w.length = k + 1 ↔ FirstAttempt ar q events actor k w := by
  constructor
  · rintro ⟨h, hlen⟩
    have hmem : ∀ e ∈ w, e ∈ events ∧ e.actor = actor := by
      intro e he
      obtain ⟨hin, ha⟩ := List.mem_filter.1 (h.mem e he)
      exact ⟨(mem_orderedEvents.1 hin).1, of_decide_eq_true ha⟩
    refine ⟨⟨hlen, hmem, fun i e hi ↦ (journey_takes i e).1 (h.takes i e hi), h.increasing,
      fun first last hf hl ↦ h.inTime first hf last (List.mem_of_getLast? hl)⟩, ?_⟩
    intro first hf e he ha ht
    refine h.first first hf e ?_ ((journey_takes 0 e).2 ⟨_, rfl, ht⟩)
    exact List.mem_filter.2 ⟨mem_of_step (i := 0) he rfl ht, decide_eq_true ha⟩
  · intro h
    refine ⟨⟨fun e he ↦ ?_, fun i e hi ↦ (journey_takes i e).2 (h.steps i e hi), h.increasing,
      fun first hf e he ht ↦ ?_, fun first hf e he ↦ ?_⟩, h.length⟩
    · obtain ⟨hin, ha⟩ := h.mem e he
      obtain ⟨i, hi⟩ := List.mem_iff_getElem?.1 he
      obtain ⟨name, hname, ht⟩ := h.steps i e hi
      exact List.mem_filter.2 ⟨mem_of_step hin hname ht, decide_eq_true ha⟩
    · obtain ⟨hin, ha⟩ := List.mem_filter.1 he
      obtain ⟨name, hname, ht⟩ := (journey_takes 0 e).1 ht
      obtain rfl := Option.some.inj hname
      exact h.earliest first hf e (mem_orderedEvents.1 hin).1 (of_decide_eq_true ha) ht
    · -- the last event is the latest one
      rcases List.eq_nil_or_concat w.tail with hnil | ⟨init, last, hw⟩
      · rw [hnil] at he
        cases he
      rw [List.concat_eq_append] at hw
      have hlast := h.inTime first last hf (by rw [hw]; simp)
      have hle : e.ts ≤ last.ts := by
        have hinc := h.increasing.sublist (List.tail_sublist w)
        rw [hw] at hinc he
        rcases List.mem_append.1 he with he | he
        · exact ((List.pairwise_append.1 hinc).2.2 e he last (by simp)).le
        · rw [List.mem_singleton.1 he]
      by_contra hlate
      rw [Bool.not_eq_false] at hlate
      exact Bool.false_ne_true (hlast.symm.trans (le_intCast_mono hlate hle))

theorem FirstAttempt.shorter {w : List RawEvent} (h : FirstAttempt ar q events actor (k + 1) w) :
    ∃ d, FirstAttempt ar q events actor k d := by
  obtain ⟨hchain, hlen⟩ := chain_iff.2 h
  obtain ⟨d, hd, hdlen⟩ := hchain.shorter (n := k + 1) (by omega)
  exact ⟨d, chain_iff.1 ⟨hd, hdlen⟩⟩

section

variable (hc : Collates ar.toRuntime) (hactors : ∀ e ∈ events, ∃ n, e.actor = natText n)

include hc

theorem coe_reachers (events : List RawEvent) (q : FunnelQuery) (k : ℕ) :
    (reachers ar q (orderedEvents ar events q) k : Set JsString) =
      {actor | ∃ w, FirstAttempt ar q events actor k w} := by
  ext actor
  have hsorted : ((orderedEvents ar events q).filter (fun e ↦ e.actor = actor)).Pairwise
      (fun a b ↦ (journey ar q).time a ≤ (journey ar q).time b) := by
    rw [List.pairwise_filter]
    refine (ordered_pairwise hc _).imp (fun {a b} hab ha hb ↦ visitOrder_same hc hab ?_)
    exact (of_decide_eq_true ha).trans (of_decide_eq_true hb).symm
  rw [Finset.mem_coe, mem_reachers, visit, Journey.stage_iff hsorted, Set.mem_ofPred_eq]
  exact exists_congr (fun w ↦ chain_iff)

include hactors

theorem rawFunnel_follows : Follows ar q (orderedEvents ar events q)
    ((orderedEvents ar events q).foldl (followEvent ar q)
      ⟨none, 0, (0 : ℤ), (0 : ℤ), [0, 0, 0]⟩) :=
  follows_ordered hc (fun e he ↦ hactors e (mem_orderedEvents.1 he).1) (ordered_pairwise hc _)

theorem rawFunnel_length : (rawFunnel ar events q).length = 3 :=
  (rawFunnel_follows hc hactors).counts.1

theorem rawFunnel_getElem? (hk : k < 3) : (rawFunnel ar events q)[k]? =
    some {actor | ∃ w, FirstAttempt ar q events actor k w}.ncard := by
  rw [← coe_reachers hc events q k, Set.ncard_coe_finset]
  exact (rawFunnel_follows hc hactors).counts.2 k hk

end

/-- A funnel counts, for each step, the actors whose first attempt gets to it. -/
theorem funnel_counts (ar : Arithmetic) (hc : Collates ar.toRuntime) (q : FunnelQuery)
    (events : List RawEvent) (hactors : ∀ e ∈ events, ∃ n, e.actor = natText n) :
    rawFunnel ar events q =
      (List.range 3).map (fun k ↦ {actor | ∃ w, FirstAttempt ar q events actor k w}.ncard) := by
  have hlen := rawFunnel_length (q := q) hc hactors
  refine List.ext_getElem? (fun k ↦ ?_)
  rw [List.getElem?_map]
  by_cases hk : k < 3
  · rw [rawFunnel_getElem? hc hactors hk, List.getElem?_range hk, Option.map_some]
  · rw [List.getElem?_eq_none (by omega), List.getElem?_eq_none (by simpa using hk)]
    rfl

/-- Three views by one visit, the last two within three hours of each other. -/
def laterViews : List RawEvent :=
  [3600000, 14400000, 18000000].map (fun ts ↦
    ⟨ts, natText 1, [(DimensionName.eventType.text, some (js "view"))], []⟩)

def viewFunnel : FunnelQuery where
  scope := .project (js "p")
  bounds := ⟨(0 : ℤ), (172800000 : ℤ)⟩
  steps := (js "view", js "view", js "view")
  within := some (10800000 : ℤ)

theorem funnel_counts_sample : rawFunnel nodeArithmetic laterViews viewFunnel =
    (List.range 3).map (fun k ↦
      {actor | ∃ w, FirstAttempt nodeArithmetic viewFunnel laterViews actor k w}.ncard) :=
  funnel_counts nodeArithmetic nodeRuntime_collates viewFunnel laterViews
    (List.forall_mem_map.2 (fun _ _ ↦ ⟨1, rfl⟩))

/-- The first view times out, and the attempt that starts with the second is not counted. -/
theorem later_attempt_lost : rawFunnel nodeArithmetic laterViews viewFunnel = [1, 0, 0] ∧
    {actor | ∃ w, Attempt nodeArithmetic viewFunnel laterViews actor 1 w}.ncard = 1 := by
  constructor
  · have hsorted : laterViews.mergeSort (visitOrder nodeArithmetic) = laterViews :=
      List.mergeSort_of_pairwise (by decide)
    have hall : laterViews.filter (fun event ↦
        (funnelSteps viewFunnel).contains ((eventType event).getD [])) = laterViews := rfl
    rw [rawFunnel, hall, hsorted]
    decide
  · have hset : {actor | ∃ w, Attempt nodeArithmetic viewFunnel laterViews actor 1 w} =
        {natText 1} := by
      ext actor
      rw [Set.mem_ofPred_eq, Set.mem_singleton_iff]
      constructor
      · rintro ⟨w, hw⟩
        obtain ⟨e, he⟩ := List.exists_mem_of_length_eq_add_one hw.length
        obtain ⟨hin, ha⟩ := hw.mem e he
        obtain ⟨ts, -, rfl⟩ := List.mem_map.1 hin
        exact ha.symm
      · rintro rfl
        refine ⟨laterViews.tail, rfl, ?_, ?_, by decide, ?_⟩
        · intro e he
          have hin : e ∈ laterViews := List.mem_of_mem_tail he
          obtain ⟨ts, -, rfl⟩ := List.mem_map.1 hin
          exact ⟨hin, rfl⟩
        · intro i e hi
          have hlt : i < 2 := (List.getElem?_eq_some_iff.1 hi).1
          interval_cases i <;> cases hi <;> exact ⟨js "view", rfl, rfl⟩
        · intro first last hf hl
          cases hf
          cases hl
          decide
    rw [hset, Set.ncard_singleton]

end Counted.Litics
