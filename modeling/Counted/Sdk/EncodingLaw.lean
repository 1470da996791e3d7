import Counted.Sdk.Encoding

namespace Counted.Sdk

open Foundations

namespace SdkClient

variable {E : Type} {t : SdkTraits} {c : SdkClient E}

/-- Events that have been reported as dropped. -/
def reportedDrops (c : SdkClient E) : ℕ := (c.diagnostics.map SdkDiagnostic.drops).sum

theorem reportedDrops_report (d : SdkDiagnostic) :
    (c.report d).reportedDrops = c.reportedDrops + d.drops := by
  rw [reportedDrops, report, List.map_append, List.sum_append]
  rfl

theorem reportedDrops_trim : (c.trim t).reportedDrops = c.reportedDrops + (c.spilled t).length := by
  have hlen : (c.spilled t).length = c.excess t := by
    rw [spilled, List.length_take, excess]
    omega
  rw [hlen, trim]
  split_ifs with h
  · rw [h]
    rfl
  · rw [reportedDrops_report]
    rfl

theorem reportedDrops_taken (now : ℚ) : (c.taken t now).reportedDrops = c.reportedDrops := by
  rw [taken]
  split_ifs <;> rfl

/-- What an answer to a batch that is not retried leaves of the client: the same buffer. -/
theorem settle_acceptsJson (b : Bool) (batch : List E) (now : ℚ) :
    (c.settle t batch (acceptsJson b) now 0).buffer = c.buffer ∧
      (c.settle t batch (acceptsJson b) now 0).reportedDrops = c.reportedDrops := by
  cases b with
  | true => exact ⟨rfl, rfl⟩
  | false => exact ⟨rfl, reportedDrops_report _⟩

variable [DecidableEq E]

theorem count_trim (e : E) :
    c.buffer.count e = (c.spilled t).count e + (c.trim t).buffer.count e := by
  rw [trim_buffer, spilled, ← List.count_append, List.take_append_drop]

theorem count_taken (now : ℚ) (e : E) :
    c.buffer.count e = (c.batch t now).count e + (c.taken t now).buffer.count e := by
  rw [batch, taken]
  split_ifs
  · rw [List.count_nil, Nat.zero_add]
  · rw [← List.count_append, List.take_append_drop]

end SdkClient

variable {E : Type} {sdk : EncodingSdk} {encode : E → Encoding} {s t : Ledger E} {now : ℚ}
  {event : E} {a : LedgerAction E} {batch : List E}

namespace EncodingSdk

theorem payload_json (sdk : EncodingSdk) (encode : E → Encoding) (batch : List E) :
    sdk.payload (batch.map encode) = .json ↔ ∀ e ∈ batch, encode e = .json := by
  unfold payload
  have hall : (batch.map encode).all (· = .json) = true ↔ ∀ e ∈ batch, encode e = .json := by
    simp
  by_cases h : (batch.map encode).all (· = .json) = true
  · rw [if_pos h]
    exact iff_of_true rfl (hall.1 h)
  · rw [if_neg h]
    refine iff_of_false ?_ (mt hall.2 h)
    cases sdk with
    | go => exact nofun
    | python =>
      dsimp only
      split_ifs <;> exact nofun

/-- The client whose encoder's errors are not caught. -/
def raises : EncodingSdk → Bool
  | .go => false
  | .python .. => true

theorem payload_raised (sdk : EncodingSdk) (encode : E → Encoding) (batch : List E) :
    sdk.payload (batch.map encode) = .raised ↔
    sdk.raises = true ∧ ∃ e ∈ batch, encode e = .rejected := by
  unfold payload
  by_cases h : (batch.map encode).all (· = .json) = true
  · rw [if_pos h]
    refine iff_of_false nofun ?_
    rintro ⟨-, e, he, hr⟩
    have := List.all_eq_true.1 h _ (List.mem_map_of_mem he)
    simp [hr] at this
  · rw [if_neg h]
    cases sdk with
    | go => exact iff_of_false nofun fun hr ↦ nomatch hr.1
    | python =>
      by_cases hany : (batch.map encode).any (· = .rejected) = true
      · refine iff_of_true (if_pos hany) ⟨rfl, by simpa using hany⟩
      · refine iff_of_false (fun he ↦ ?_) ?_
        · exact nomatch (if_neg hany).symm.trans he
        · rintro ⟨-, e, he, hr⟩
          exact hany (List.any_eq_true.2 ⟨_, List.mem_map_of_mem he, decide_eq_true hr⟩)

end EncodingSdk

/-- All of a batch can be encoded, or none of it. -/
def Unmixed (encode : E → Encoding) (batch : List E) : Prop :=
  (∀ e ∈ batch, encode e = .json) ∨ ∀ e ∈ batch, encode e ≠ .json

namespace Ledger

/-- What a flush can do. -/
inductive Flushes (sdk : EncodingSdk) (encode : E → Encoding) (s : Ledger E) (now : ℚ) :
    Ledger E × Bool → Prop
  | nothing : s.client.batch sdk.traits now = [] →
    Flushes sdk encode s now ({ s with client := s.client.taken sdk.traits now }, false)
  | sent : (∀ e ∈ s.client.batch sdk.traits now, encode e = .json) →
    Flushes sdk encode s now ({ s with
      client := (s.client.taken sdk.traits now).settle sdk.traits (s.client.batch sdk.traits now)
        (acceptsJson true) now 0
      acknowledged := s.acknowledged ++ s.client.batch sdk.traits now }, false)
  | refused : (¬ ∀ e ∈ s.client.batch sdk.traits now, encode e = .json) →
    ¬ (sdk.raises = true ∧ ∃ e ∈ s.client.batch sdk.traits now, encode e = .rejected) →
    Flushes sdk encode s now ({ s with
      client := (s.client.taken sdk.traits now).settle sdk.traits (s.client.batch sdk.traits now)
        (acceptsJson false) now 0
      refused := s.refused ++ s.client.batch sdk.traits now }, false)
  | raised : (¬ ∀ e ∈ s.client.batch sdk.traits now, encode e = .json) →
    (sdk.raises = true ∧ ∃ e ∈ s.client.batch sdk.traits now, encode e = .rejected) →
    Flushes sdk encode s now ({ s with
      client := s.client.taken sdk.traits now
      lost := s.lost ++ s.client.batch sdk.traits now }, true)

theorem flush_flushes (sdk : EncodingSdk) (encode : E → Encoding) (s : Ledger E) (now : ℚ) :
    Flushes sdk encode s now (s.flush sdk encode now) := by
  unfold flush
  dsimp only
  split_ifs with hnil
  · exact .nothing (List.isEmpty_iff.1 hnil)
  · have hjson := EncodingSdk.payload_json sdk encode (s.client.batch sdk.traits now)
    have hraised := EncodingSdk.payload_raised sdk encode (s.client.batch sdk.traits now)
    cases hp : sdk.payload ((s.client.batch sdk.traits now).map encode) with
    | json => exact .sent (hjson.1 hp)
    | text => exact .refused (mt hjson.2 (by simp [hp])) (mt hraised.2 (by simp [hp]))
    | raised => exact .raised (mt hjson.2 (by simp [hp])) (hraised.1 hp)

variable [DecidableEq E]

/-- Every event that the client was given is somewhere, once. -/
structure Kept (s : Ledger E) : Prop where
  placed : ∀ e, s.tracked.count e = s.client.buffer.count e + s.acknowledged.count e +
    s.dropped.count e + s.refused.count e + s.lost.count e
  reported : s.client.reportedDrops = s.dropped.length

/-- No call of `track` has raised, the timer is going, and every event that can be encoded is in
the buffer, acknowledged, or reported as dropped. -/
structure Unharmed (encode : E → Encoding) (s : Ledger E) : Prop where
  quiet : s.raised = false
  timer : s.timer = true
  placed : ∀ e, encode e = .json → s.tracked.count e = s.client.buffer.count e +
    s.acknowledged.count e + s.dropped.count e
  reported : s.client.reportedDrops = s.dropped.length

theorem Kept.unharmed_iff (h : s.Kept) : s.Unharmed encode ↔ s.raised = false ∧ s.timer = true ∧
    ∀ e, encode e = .json → s.refused.count e = 0 ∧ s.lost.count e = 0 := by
  constructor
  · intro hu
    refine ⟨hu.quiet, hu.timer, fun e he ↦ ?_⟩
    have := h.placed e
    have := hu.placed e he
    omega
  · rintro ⟨hq, ht, hlost⟩
    refine ⟨hq, ht, fun e he ↦ ?_, h.reported⟩
    have := h.placed e
    have := hlost e he
    omega

theorem kept_initial : (initial : Ledger E).Kept := ⟨fun _ ↦ rfl, rfl⟩

theorem Kept.pushed (h : s.Kept) (sdk : EncodingSdk) (event : E) : (s.pushed sdk event).Kept where
  placed e := by
    have hp := h.placed e
    have hc := SdkClient.count_trim (t := sdk.traits) (c := s.client.append event) e
    simp only [SdkClient.append, List.count_append] at hc
    simp only [Ledger.pushed, SdkClient.push, SdkClient.append, List.count_append]
    omega
  reported := by
    have hr := h.reported
    simp only [Ledger.pushed, SdkClient.push, SdkClient.reportedDrops_trim, List.length_append]
    rw [← hr]
    rfl

theorem Kept.flush (h : s.Kept) (sdk : EncodingSdk) (encode : E → Encoding) (now : ℚ) :
    (s.flush sdk encode now).1.Kept := by
  have hcount := SdkClient.count_taken (t := sdk.traits) (c := s.client) now
  have hdrops := SdkClient.reportedDrops_taken (t := sdk.traits) (c := s.client) now
  have hsettle (b : Bool) := SdkClient.settle_acceptsJson (t := sdk.traits)
    (c := s.client.taken sdk.traits now) b (s.client.batch sdk.traits now) now
  have hf := flush_flushes sdk encode s now
  generalize s.flush sdk encode now = r at hf ⊢
  cases hf with
  | nothing hnil =>
    refine ⟨fun e ↦ ?_, hdrops.trans h.reported⟩
    have hc := hcount e
    rw [hnil, List.count_nil] at hc
    have := h.placed e
    simp only
    omega
  | sent =>
    refine ⟨fun e ↦ ?_, (hsettle true).2.trans (hdrops.trans h.reported)⟩
    have := hcount e
    have := h.placed e
    simp only [(hsettle true).1, List.count_append]
    omega
  | refused =>
    refine ⟨fun e ↦ ?_, (hsettle false).2.trans (hdrops.trans h.reported)⟩
    have := hcount e
    have := h.placed e
    simp only [(hsettle false).1, List.count_append]
    omega
  | raised =>
    refine ⟨fun e ↦ ?_, hdrops.trans h.reported⟩
    have := hcount e
    have := h.placed e
    simp only [List.count_append]
    omega

section

omit [DecidableEq E]

/-- Whether a batch makes the encoder raise. -/
def Raises (sdk : EncodingSdk) (encode : E → Encoding) (batch : List E) : Prop :=
  sdk.raises = true ∧ ∃ e ∈ batch, encode e = .rejected

theorem flush_flags (sdk : EncodingSdk) (encode : E → Encoding) (s : Ledger E) (now : ℚ) :
    (s.flush sdk encode now).1.raised = s.raised ∧ (s.flush sdk encode now).1.timer = s.timer ∧
      ((s.flush sdk encode now).2 = true ↔ Raises sdk encode (s.client.batch sdk.traits now)) := by
  have hf := flush_flushes sdk encode s now
  generalize s.flush sdk encode now = r at hf ⊢
  cases hf with
  | nothing hnil =>
    refine ⟨rfl, rfl, iff_of_false Bool.false_ne_true ?_⟩
    rintro ⟨-, e, he, -⟩
    rw [hnil] at he
    cases he
  | sent hjson =>
    refine ⟨rfl, rfl, iff_of_false Bool.false_ne_true ?_⟩
    rintro ⟨-, e, he, hr⟩
    rw [hjson e he] at hr
    cases hr
  | refused _ hr => exact ⟨rfl, rfl, iff_of_false Bool.false_ne_true hr⟩
  | raised _ hr => exact ⟨rfl, rfl, iff_of_true rfl hr⟩

end

/-- No event that can be encoded has been refused or lost. -/
def Spared (encode : E → Encoding) (s : Ledger E) : Prop :=
  ∀ e, encode e = .json → s.refused.count e = 0 ∧ s.lost.count e = 0

theorem unmixed_iff (h : ¬ ∀ e ∈ batch, encode e = .json) :
    Unmixed encode batch ↔ ∀ e, encode e = .json → batch.count e = 0 := by
  rw [Unmixed, or_iff_right h]
  simp only [List.count_eq_zero]
  exact ⟨fun hn e he hm ↦ hn e hm he, fun hn e hm he ↦ hn e he hm⟩

theorem flush_spared (hs : s.Spared encode) (sdk : EncodingSdk) (now : ℚ) :
    (s.flush sdk encode now).1.Spared encode ↔
      Unmixed encode (s.client.batch sdk.traits now) := by
  have hf := flush_flushes sdk encode s now
  generalize s.flush sdk encode now = r at hf ⊢
  cases hf with
  | nothing hnil =>
    refine iff_of_true hs (.inl fun e he ↦ ?_)
    rw [hnil] at he
    cases he
  | sent hjson => exact iff_of_true hs (.inl hjson)
  | refused hmixed _ =>
    rw [unmixed_iff hmixed]
    refine forall₂_congr fun e he ↦ ?_
    have := hs e he
    simp only [List.count_append]
    omega
  | raised hmixed _ =>
    rw [unmixed_iff hmixed]
    refine forall₂_congr fun e he ↦ ?_
    have := hs e he
    simp only [List.count_append]
    omega

/-- The batch a step takes can be encoded as a whole or in no part, and does not make `track` or
the timer raise. -/
def Harmless (sdk : EncodingSdk) (encode : E → Encoding) (s : Ledger E) (a : LedgerAction E) :
    Prop :=
  Unmixed encode (s.takes sdk a) ∧
    ((∀ now, a ≠ .flush now) → ¬ Raises sdk encode (s.takes sdk a))

theorem Kept.step (h : s.Kept) (ha : s.step sdk encode a = some t) : t.Kept := by
  cases a with
  | track event now =>
    obtain rfl := Option.some.inj ha
    rw [Ledger.track]
    split_ifs
    · exact h
    · have hf := (h.pushed sdk event).flush sdk encode now
      exact ⟨hf.placed, hf.reported⟩
    · exact h.pushed sdk event
  | flush now =>
    obtain rfl := Option.some.inj ha
    exact h.flush sdk encode now
  | tick now =>
    rw [Ledger.step] at ha
    split_ifs at ha
    obtain rfl := Option.some.inj ha
    have hf := h.flush sdk encode now
    exact ⟨hf.placed, hf.reported⟩

omit [DecidableEq E] in
theorem unmixed_nil (encode : E → Encoding) : Unmixed encode [] := .inl fun _ he ↦ nomatch he

omit [DecidableEq E] in
theorem not_raises_nil (sdk : EncodingSdk) (encode : E → Encoding) : ¬ Raises sdk encode [] := by
  rintro ⟨-, e, he, -⟩
  cases he

/-- A step keeps what the client promises exactly if its batch is harmless. -/
theorem unharmed_step (h : s.Kept) (hu : s.Unharmed encode)
    (ha : s.step sdk encode a = some t) : t.Unharmed encode ↔ Harmless sdk encode s a := by
  have hs : s.Spared encode := (h.unharmed_iff.1 hu).2.2
  rw [(h.step ha).unharmed_iff, Harmless]
  cases a with
  | track event now =>
    obtain rfl := Option.some.inj ha
    have hflags := flush_flags sdk encode (s.pushed sdk event) now
    have hpushed : (s.pushed sdk event).Spared encode := hs
    have hspared := flush_spared hpushed sdk now
    simp only [Ledger.track, Ledger.takes]
    split_ifs with hclosed hfull
    · exact iff_of_true ⟨hu.quiet, hu.timer, hs⟩
        ⟨unmixed_nil encode, fun _ ↦ not_raises_nil sdk encode⟩
    · change ((_ || _) = false ∧ _ = true ∧ Spared encode _) ↔ _
      refine (and_congr Iff.rfl (and_congr Iff.rfl hspared)).trans ?_
      rw [hflags.1, hflags.2.1]
      have hq : (s.pushed sdk event).raised = false := hu.quiet
      have ht : (s.pushed sdk event).timer = true := hu.timer
      rw [hq, ht, Bool.false_or, ← Bool.not_eq_true, hflags.2.2]
      exact ⟨fun hr ↦ ⟨hr.2.2, fun _ ↦ hr.1⟩, fun hr ↦ ⟨hr.2 nofun, rfl, hr.1⟩⟩
    · exact iff_of_true ⟨hu.quiet, hu.timer, hs⟩
        ⟨unmixed_nil encode, fun _ ↦ not_raises_nil sdk encode⟩
  | flush now =>
    obtain rfl := Option.some.inj ha
    have hflags := flush_flags sdk encode s now
    have hspared := flush_spared hs sdk now
    rw [hflags.1, hflags.2.1]
    exact ⟨fun hr ↦ ⟨hspared.1 hr.2.2, fun hne ↦ absurd rfl (hne now)⟩,
      fun hr ↦ ⟨hu.quiet, hu.timer, hspared.2 hr.1⟩⟩
  | tick now =>
    rw [Ledger.step, if_pos hu.timer] at ha
    obtain rfl := Option.some.inj ha
    have hflags := flush_flags sdk encode s now
    have hspared := flush_spared hs sdk now
    rw [Ledger.takes, if_pos hu.timer]
    change (_ = false ∧ (!_) = true ∧ Spared encode _) ↔ _
    refine (and_congr Iff.rfl (and_congr Iff.rfl hspared)).trans ?_
    rw [hflags.1, Bool.not_eq_true', ← Bool.not_eq_true (s.flush sdk encode now).2, hflags.2.2]
    exact ⟨fun hr ↦ ⟨hr.2.2, fun _ ↦ hr.2.1⟩, fun hr ↦ ⟨hu.quiet, hr.2 nofun, hr.1⟩⟩

section

omit [DecidableEq E]

/-- Nothing has stopped the client: neither a credential that was refused nor a pause. -/
def Going (s : Ledger E) : Prop :=
  s.client.disabled = false ∧ s.client.pausedUntil = 0

theorem Going.pushed (h : s.Going) (event : E) : (s.pushed sdk event).Going := by
  have htrim : ∀ c : SdkClient E, (c.trim sdk.traits).disabled = c.disabled ∧
      (c.trim sdk.traits).pausedUntil = c.pausedUntil := by
    intro c
    rw [SdkClient.trim]
    split_ifs <;> exact ⟨rfl, rfl⟩
  have ht := htrim (s.client.append event)
  exact ⟨ht.1.trans h.1, ht.2.trans h.2⟩

theorem Going.flush (h : s.Going) (sdk : EncodingSdk) (encode : E → Encoding) (now : ℚ) :
    (s.flush sdk encode now).1.Going := by
  have htaken : (s.client.taken sdk.traits now).disabled = false ∧
      (s.client.taken sdk.traits now).pausedUntil = 0 := by
    rw [SdkClient.taken]
    split_ifs <;> exact h
  have hf := flush_flushes sdk encode s now
  generalize s.flush sdk encode now = r at hf ⊢
  cases hf <;> exact htaken

theorem Going.step (h : s.Going) (ha : s.step sdk encode a = some t) : t.Going := by
  cases a with
  | track event now =>
    obtain rfl := Option.some.inj ha
    rw [Ledger.track]
    split_ifs
    · exact h
    · exact (h.pushed event).flush sdk encode now
    · exact h.pushed event
  | flush now =>
    obtain rfl := Option.some.inj ha
    exact h.flush sdk encode now
  | tick now =>
    rw [Ledger.step] at ha
    split_ifs at ha
    obtain rfl := Option.some.inj ha
    exact h.flush sdk encode now

/-- A flush takes a batch out of the buffer, whatever becomes of it. -/
theorem Going.drop (h : s.Going) (sdk : EncodingSdk) (encode : E → Encoding) (hnow : 0 ≤ now) :
    (s.flush sdk encode now).1.client.buffer = s.client.buffer.drop sdk.traits.maxBatch := by
  have hblocked : s.client.blocked now = false := by
    rw [SdkClient.blocked, h.1, h.2, Bool.false_or]
    exact decide_eq_false (not_lt.2 hnow)
  have htaken : (s.client.taken sdk.traits now).buffer =
      s.client.buffer.drop sdk.traits.maxBatch := by
    rw [SdkClient.taken, hblocked]
    rfl
  have hf := flush_flushes sdk encode s now
  generalize s.flush sdk encode now = r at hf ⊢
  cases hf <;> exact htaken

/-- Flushes empty the buffer. -/
theorem Going.drain (h : s.Going) (sdk : EncodingSdk) (encode : E → Encoding) (hnow : 0 ≤ now) (n : ℕ) (hn : s.client.buffer.length ≤ n) :
    ∃ t, run (Ledger.step sdk encode) s (List.replicate n (.flush now)) = some t ∧
      t.client.buffer = [] := by
  induction n generalizing s with
  | zero => exact ⟨s, rfl, List.length_eq_zero_iff.1 (Nat.le_zero.1 hn)⟩
  | succ n ih =>
    have hdrop := h.drop sdk encode hnow
    obtain ⟨t, ht, hnil⟩ := ih (h.flush sdk encode now) (by
      rw [hdrop, List.length_drop]
      have := sdk.traits.maxBatch_pos
      omega)
    exact ⟨t, ht, hnil⟩

end

/-- Every run in which each batch is harmless keeps what the client promises throughout, and only
such a run does. After any run, flushes empty the buffer; where the whole run was harmless, every
event that can be encoded is then acknowledged or has been reported as dropped. -/
theorem unencodable_costs_nobody_iff (sdk : EncodingSdk) (encode : E → Encoding)
    (l : List (LedgerAction E)) :
    (Throughout (step sdk encode) (Unharmed encode) initial l ↔
      Along (step sdk encode) (Harmless sdk encode) initial l) ∧
    ∀ s, run (step sdk encode) initial l = some s → ∀ now, 0 ≤ now → ∃ n t,
      run (step sdk encode) initial (l ++ List.replicate n (.flush now)) = some t ∧
        t.client.buffer = [] ∧
        (Along (step sdk encode) (Harmless sdk encode) initial
            (l ++ List.replicate n (.flush now)) →
          ∀ e, encode e = .json →
            t.tracked.count e = t.acknowledged.count e + t.dropped.count e) := by
  have hiff (m : List (LedgerAction E)) :
      Throughout (step sdk encode) (Unharmed encode) initial m ↔
        Along (step sdk encode) (Harmless sdk encode) initial m := by
    refine throughout_iff_along (I := Kept) (fun s a t h ha ↦ h.step ha)
      (fun s a t h hu ha ↦ unharmed_step h hu ha) (fun s a hnone ↦ ?_) kept_initial
      ⟨rfl, rfl, fun _ _ ↦ rfl, rfl⟩
    cases a with
    | track event now => cases hnone
    | flush now => cases hnone
    | tick now =>
      have htimer : s.timer = false := by
        rw [Ledger.step] at hnone
        split_ifs at hnone with ht
        exact Bool.not_eq_true _ ▸ ht
      rw [Harmless, Ledger.takes, htimer]
      exact ⟨unmixed_nil encode, fun _ ↦ not_raises_nil sdk encode⟩
  refine ⟨hiff l, fun s hs now hnow ↦ ?_⟩
  have hgoing : s.Going :=
    run_invariant (P := Going) (fun s a t h ha ↦ h.step ha) ⟨rfl, rfl⟩ hs
  obtain ⟨t, ht, hnil⟩ := hgoing.drain sdk encode hnow _ le_rfl
  have hrun : run (step sdk encode) initial
      (l ++ List.replicate s.client.buffer.length (.flush now)) = some t := by
    rw [run_append, hs]
    exact ht
  refine ⟨_, t, hrun, hnil, fun hh e he ↦ ?_⟩
  have hp := (((hiff _).2 hh).last hrun).placed e he
  rwa [hnil, List.count_nil, Nat.zero_add] at hp

/-- An event that can be encoded, tracked before one that cannot and flushed with it: in Go the
server refuses both, in Python `track` itself raises and both are gone, and a timer whose flush
raises stops for good. -/
theorem unencodable_costs_neighbour :
    (∃ t, run (step .go id) (initial : Ledger Encoding)
        [.track .json 0, .track .rejected 0, .flush 0] = some t ∧
      t.client.buffer = [] ∧ t.acknowledged = [] ∧ t.dropped = [] ∧
      t.refused = [.json, .rejected] ∧ t.client.diagnostics = [.refused 400]) ∧
    (∃ t, run (step (.python 2 1000 (by decide) (by decide)) id) (initial : Ledger Encoding)
        [.track .json 0, .track .rejected 0] = some t ∧
      t.raised = true ∧ t.client.buffer = [] ∧ t.acknowledged = [] ∧ t.dropped = [] ∧
      t.lost = [.json, .rejected] ∧ t.client.diagnostics = []) ∧
    ∃ t, run (step (.python 2 1000 (by decide) (by decide)) id) (initial : Ledger Encoding)
        [.track .rejected 0, .tick 0] = some t ∧
      t.timer = false ∧ step (.python 2 1000 (by decide) (by decide)) id t (.tick 0) = none :=
  ⟨⟨_, rfl, rfl, rfl, rfl, rfl, rfl⟩, ⟨_, rfl, rfl, rfl, rfl, rfl, rfl, rfl⟩, _, rfl, rfl, rfl⟩

end Ledger

end Counted.Sdk
