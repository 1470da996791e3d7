import Counted.Foundations.Run
import Counted.Outbox.DeadLetters

namespace Counted.Outbox

open Foundations

/-- The envelopes a pass has claimed and not settled yet. -/
def Pass.held (p : Pass) : List EnvelopeId := p.pending.map (·.envelope.id) ++ p.delivered

namespace OutboxAction

/-- The pass that acts. -/
def actor : OutboxAction → Option ℕ
  | .deliver index | .deliveryFails index _ _ | .finish index _ | .crash index => some index
  | .enqueue _ | .claim .. => none

/-- The envelopes a statement marks or fails, by their ids only. -/
def settles (p : Pass) : OutboxAction → List EnvelopeId
  | .deliveryFails _ _ recording =>
    if recording = .failed then [] else (p.pending.head?.map (·.envelope.id)).toList
  | .finish .. => p.delivered
  | .enqueue _ | .claim .. | .deliver _ | .crash _ => []

/-- The time a claim writes. -/
def claimTime : OutboxAction → Option Instant
  | .claim _ dbNow _ => some dbNow
  | .enqueue _ | .deliver _ | .deliveryFails .. | .finish .. | .crash _ => none

end OutboxAction

structure TimedAction where
  dbNow : Instant
  action : OutboxAction

/-- The system with the clock of the database, and the time of the claim of each pass. -/
structure LeaseSystem where
  system : OutboxSystem
  clock : Instant
  since : List Instant

section Claim

variable {deps : OutboxDispatchDeps} {t : OutboxTable} {dbNow : Instant} {locked : List EnvelopeId}

theorem claimRows_free {row : OutboxRow} (h : row ∈ claimRows deps t dbNow locked) :
    row ∈ t.rows ∧ row.isFree dbNow deps.leaseTime = true := by
  obtain ⟨hr, hf, -⟩ := OutboxTable.mem_selected h
  exact ⟨hr, hf⟩

/-- A row that shares its id with a claimed one is that one. -/
theorem mem_claimRows {row : OutboxRow} (hr : row ∈ t.rows)
    (h : row.id ∈ (claimRows deps t dbNow locked).map (·.id)) :
    row ∈ claimRows deps t dbNow locked := by
  obtain ⟨old, hold, hid⟩ := List.mem_map.1 h
  have heq := List.inj_on_of_nodup_map t.unique (claimRows_free hold).1 hr hid
  exact heq ▸ hold

theorem mem_claim {row : OutboxRow} : row ∈ (claim deps t dbNow locked).2.rows ↔
    (∃ old ∈ claimRows deps t dbNow locked, row = { old with claimedAt := some dbNow }) ∨
      row ∈ t.rows ∧ row.id ∉ (claimRows deps t dbNow locked).map (·.id) := by
  by_cases hb : deps.batch = 0
  · have hnil : claimRows deps t dbNow locked = [] := by
      rw [claimRows, OutboxTable.selected, hb, List.take_zero]
    rw [claim, if_pos hb, hnil]
    simp
  · rw [claim, if_neg hb]
    change row ∈ (t.lease dbNow (claimRows deps t dbNow locked)).rows ↔ _
    rw [OutboxTable.lease, OutboxTable.mem_update]
    apply or_congr_left
    constructor
    · rintro ⟨old, hold, hid, rfl⟩
      exact ⟨old, mem_claimRows hold hid, rfl⟩
    · rintro ⟨old, hold, rfl⟩
      exact ⟨old, (claimRows_free hold).1, List.mem_map_of_mem hold, rfl⟩

theorem claim_ids : (claim deps t dbNow locked).2.rows.map (·.id) = t.rows.map (·.id) := by
  rcases claim_table deps t dbNow locked with ht | ht
  · rw [ht]
  · rw [ht]
    exact OutboxTable.map_id_update

theorem claim_held_ids {held : List Held} (h : (claim deps t dbNow locked).1 = .ok held) :
    (held.map (·.envelope.id)).Perm ((claimRows deps t dbNow locked).map (·.id)) := by
  rw [claim] at h
  split_ifs at h with hb
  · have hnil : claimRows deps t dbNow locked = [] := by
      rw [claimRows, OutboxTable.selected, hb, List.take_zero]
    obtain rfl := Except.ok.inj h
    rw [hnil]
    exact .refl _
  · obtain ⟨decoded, hd, rfl⟩ := map_ok.1 h
    refine ((List.mergeSort_perm decoded _).map _).trans (.of_eq ?_)
    exact map_of_mapM_ok (fun x : Held ↦ x.envelope.id) (fun row : OutboxRow ↦ row.id)
      (fun row _ x hx ↦ (heldOf_ok hx).1) hd

theorem claimRows_nodup : ((claimRows deps t dbNow locked).map (·.id)).Nodup := by
  have hsub : (claimRows deps t dbNow locked).Subperm t.rows := by
    refine (List.take_sublist _ _).subperm.trans ?_
    exact (List.mergeSort_perm _ _).subperm.trans List.filter_sublist.subperm
  obtain ⟨l, hl, hs⟩ := hsub
  exact (hl.map (·.id)).nodup_iff.1 ((hs.map (·.id)).nodup t.unique)

theorem recordFailure_ids {id : EnvelopeId} {error : JsString} {at' : Instant} :
    (t.recordFailure id error at').rows.map (·.id) = t.rows.map (·.id) := by
  rw [OutboxTable.recordFailure, OutboxTable.map_id_update]

theorem enqueue_ids {id : EnvelopeId} (events : List EventEnvelope)
    (h : id ∈ t.rows.map (·.id)) : id ∈ (t.enqueue events).rows.map (·.id) := by
  induction events generalizing t with
  | nil => exact h
  | cons e events ih =>
    apply ih
    rw [OutboxTable.insert]
    split_ifs
    · exact h
    · rw [List.map_append]
      exact List.mem_append_left _ h

theorem mem_enqueue {row : OutboxRow} (events : List EventEnvelope) (h : row ∈ t.rows) :
    row ∈ (t.enqueue events).rows := by
  induction events generalizing t with
  | nil => exact h
  | cons e events ih =>
    apply ih
    rw [OutboxTable.insert]
    split_ifs
    · exact h
    · exact List.mem_append_left _ h

/-- What an enqueue adds has an id no row had. -/
theorem of_mem_enqueue {row : OutboxRow} {events : List EventEnvelope}
    (h : row ∈ (t.enqueue events).rows) : row ∈ t.rows ∨ row.id ∉ t.rows.map (·.id) := by
  induction events generalizing t with
  | nil => exact .inl h
  | cons e events ih =>
    rcases ih h with h | hn
    · rcases OutboxTable.mem_insert h with h | ⟨hn, rfl⟩
      · exact .inl h
      · exact .inr hn
    · right
      intro hid
      apply hn
      exact enqueue_ids [e] hid

end Claim

namespace LeaseSystem

variable (deps : OutboxDispatchDeps) (s : LeaseSystem)

def empty : LeaseSystem := ⟨.empty, 0, []⟩

def sinceAfter (t : OutboxSystem) : OutboxAction → List Instant
  | .claim _ dbNow _ =>
    if s.system.passes.length < t.passes.length then s.since ++ [dbNow] else s.since
  | .deliveryFails index _ _ =>
    if t.passes.length < s.system.passes.length then s.since.eraseIdx index else s.since
  | .finish index _ | .crash index => s.since.eraseIdx index
  | .enqueue _ | .deliver _ => s.since

/-- The clock of the database does not go back. -/
def step (a : TimedAction) : Option LeaseSystem :=
  if s.clock ≤ a.dbNow ∧ a.action.claimTime.all (· = a.dbNow) then
    (s.system.step deps a.action).map fun t ↦ ⟨t, a.dbNow, s.sinceAfter t a.action⟩
  else none

/-- A pass in progress, and the time of its claim. -/
def Tenure (index : ℕ) (p : Pass) (claimed : Instant) : Prop :=
  s.system.passes[index]? = some p ∧ s.since[index]? = some claimed

/-- Whether a lease taken at some time is still current. -/
def Current (claimed : Instant) : Prop := s.clock - deps.leaseTime ≤ claimed

instance (claimed : Instant) : Decidable (s.Current deps claimed) :=
  inferInstanceAs (Decidable (_ ≤ _))

/-- An undispatched row is under the current lease of one pass at most. -/
def Exclusive : Prop := ∀ row ∈ s.system.table.rows, row.dispatchedAt = none →
  ∀ i j p q c d, s.Tenure i p c → s.Tenure j q d → row.id ∈ p.held → row.id ∈ q.held →
    s.Current deps c → s.Current deps d → i = j

/-- A row under the current lease of a pass is left as it is by whatever anyone else does. -/
def Undisturbed (a : TimedAction) : Prop := ∀ t, s.step deps a = some t →
  ∀ j q d, a.action.actor ≠ some j → s.Tenure j q d → a.dbNow - deps.leaseTime ≤ d →
    ∀ row ∈ s.system.table.rows, row.id ∈ q.held → row.dispatchedAt = none →
      row.claimedAt = some d → row ∈ t.system.table.rows

/-- What a pass marks or fails is under no current lease, or under its own. -/
def SettlesOwn (a : TimedAction) : Prop := ∀ i p c, a.action.actor = some i → s.Tenure i p c →
  ∀ row ∈ s.system.table.rows, row.id ∈ a.action.settles p → row.dispatchedAt = none →
    row.isFree a.dbNow deps.leaseTime = true ∨ row.claimedAt = some c

structure LeaseInv : Prop where
  length : s.since.length = s.system.passes.length
  known : ∀ i p c, s.Tenure i p c → ∀ id ∈ p.held, id ∈ s.system.table.rows.map (·.id)
  nodup : ∀ i p c, s.Tenure i p c → p.held.Nodup
  owned : ∀ i p c, s.Tenure i p c → ∀ row ∈ s.system.table.rows, row.id ∈ p.held →
    row.dispatchedAt = none → row.claimedAt = some c ∨ c < s.clock - deps.leaseTime
  exclusive : Exclusive deps s

variable {deps} {s t : LeaseSystem} {a : TimedAction}

theorem empty_inv : LeaseInv deps empty where
  length := rfl
  known i p c h := by cases h.1
  nodup i p c h := by cases h.1
  owned i p c h := by cases h.1
  exclusive row h := by cases h

theorem isFree_iff {row : OutboxRow} {dbNow : Instant} {lease : Duration} :
    row.isFree dbNow lease = true ↔
      row.dispatchedAt = none ∧ ∀ c, row.claimedAt = some c → c < dbNow - lease := by
  rw [OutboxRow.isFree, Bool.and_eq_true, Option.isNone_iff_eq_none]
  cases row.claimedAt with
  | none => simp
  | some c => simp

/-- A step that adds no pass: those that go on hold what they held, and a row whose lease is
taken away is held by expired leases only. -/
theorem LeaseInv.inherit (h : LeaseInv deps s) (f : ℕ → ℕ) (hf : Function.Injective f)
    (hclock : s.clock ≤ t.clock) (hlen : t.since.length = t.system.passes.length)
    (hten : ∀ j p c, t.Tenure j p c → ∃ p', s.Tenure (f j) p' c ∧ p.held.Subperm p'.held)
    (hids : ∀ id ∈ s.system.table.rows.map (·.id), id ∈ t.system.table.rows.map (·.id))
    (hrows : ∀ row ∈ t.system.table.rows, row.dispatchedAt = none →
      row.id ∉ s.system.table.rows.map (·.id) ∨
      ∃ old ∈ s.system.table.rows, old.id = row.id ∧ old.dispatchedAt = none ∧
        (row.claimedAt = old.claimedAt ∨ ∀ j p c, t.Tenure j p c → row.id ∈ p.held →
          c < t.clock - deps.leaseTime)) : LeaseInv deps t := by
  refine ⟨hlen, ?_, ?_, ?_, ?_⟩
  · intro j p c hj id hid
    obtain ⟨p', hp', hsub⟩ := hten j p c hj
    exact hids id (h.known _ p' c hp' id (hsub.subset hid))
  · intro j p c hj
    obtain ⟨p', hp', hsub⟩ := hten j p c hj
    obtain ⟨l, hl, hls⟩ := hsub
    exact hl.nodup_iff.1 (hls.nodup (h.nodup _ p' c hp'))
  · intro j p c hj row hrow hid hund
    obtain ⟨p', hp', hsub⟩ := hten j p c hj
    rcases hrows row hrow hund with hn | ⟨old, hold, hoid, hound, hclaim⟩
    · exact absurd (h.known _ p' c hp' _ (hsub.subset hid)) hn
    · rcases hclaim with hclaim | hexp
      · rcases h.owned _ p' c hp' old hold (hoid ▸ hsub.subset hid) hound with hc | hc
        · exact .inl (hclaim.trans hc)
        · exact .inr (hc.trans_le (sub_le_sub_right hclock _))
      · exact .inr (hexp j p c hj hid)
  · intro row hrow hund i j p q c d hi hj hip hjq hc hd
    obtain ⟨p', hp', hsub⟩ := hten i p c hi
    obtain ⟨q', hq', hsub'⟩ := hten j q d hj
    rcases hrows row hrow hund with hn | ⟨old, hold, hoid, hound, -⟩
    · exact absurd (h.known _ p' c hp' _ (hsub.subset hip)) hn
    · apply hf
      refine h.exclusive old hold hound _ _ p' q' c d hp' hq' (hoid ▸ hsub.subset hip)
        (hoid ▸ hsub'.subset hjq) ?_ ?_
      · exact (sub_le_sub_right hclock _).trans hc
      · exact (sub_le_sub_right hclock _).trans hd

/-- The place in a list of what stands at an index once another is erased. -/
def skip (i j : ℕ) : ℕ := if j < i then j else j + 1

theorem skip_injective (i : ℕ) : Function.Injective (skip i) := by
  intro j k h
  simp only [skip] at h
  split_ifs at h <;> omega

theorem skip_ne (i j : ℕ) : skip i j ≠ i := by
  simp only [skip]
  split_ifs <;> omega

theorem getElem?_skip {α : Type} (l : List α) (i j : ℕ) : (l.eraseIdx i)[j]? = l[skip i j]? := by
  rw [List.getElem?_eraseIdx, skip]
  split_ifs <;> rfl

theorem step_some (hs : s.step deps a = some t) : s.clock ≤ a.dbNow ∧
    a.action.claimTime.all (· = a.dbNow) = true ∧
    ∃ u, s.system.step deps a.action = some u ∧ t = ⟨u, a.dbNow, s.sinceAfter u a.action⟩ := by
  rw [step] at hs
  split_ifs at hs with h
  obtain ⟨u, hu, rfl⟩ := Option.map_eq_some_iff.1 hs
  exact ⟨h.1, h.2, u, hu, rfl⟩

/-- A pass that leaves, whatever it does to the table on the way. -/
theorem LeaseInv.leave (h : LeaseInv deps s) {u : OutboxSystem} {now : Instant} {index : ℕ}
    (hclock : s.clock ≤ now) (hpasses : u.passes = s.system.passes.eraseIdx index)
    (hids : u.table.rows.map (·.id) = s.system.table.rows.map (·.id))
    (hrows : ∀ row ∈ u.table.rows, row.dispatchedAt = none →
      ∃ old ∈ s.system.table.rows, old.id = row.id ∧ old.dispatchedAt = none ∧
        (row.claimedAt = old.claimedAt ∨ ∀ j p c, j ≠ index → s.Tenure j p c → row.id ∈ p.held →
          c < now - deps.leaseTime)) :
    LeaseInv deps ⟨u, now, s.since.eraseIdx index⟩ := by
  have hten (j : ℕ) (p : Pass) (c : Instant)
      (hj : Tenure ⟨u, now, s.since.eraseIdx index⟩ j p c) : s.Tenure (skip index j) p c := by
    refine ⟨?_, ?_⟩
    · rw [← getElem?_skip, ← hpasses]
      exact hj.1
    · rw [← getElem?_skip]
      exact hj.2
  refine h.inherit (skip index) (skip_injective index) hclock ?_ ?_ ?_ ?_
  · simp only [hpasses, List.length_eraseIdx, h.length]
  · exact fun j p c hj ↦ ⟨p, hten j p c hj, List.Subperm.refl _⟩
  · intro id hid
    exact hids ▸ hid
  · intro row hrow hund
    obtain ⟨old, hold, hid, hound, hclaim⟩ := hrows row hrow hund
    refine .inr ⟨old, hold, hid, hound, hclaim.imp_right fun hexp j p c hj hheld ↦ ?_⟩
    exact hexp _ p c (skip_ne index j) (hten j p c hj) hheld

/-- A pass that goes on. -/
theorem LeaseInv.goOn (h : LeaseInv deps s) {u : OutboxSystem} {now : Instant} {index : ℕ}
    {p q : Pass} (hclock : s.clock ≤ now) (hp : s.system.passes[index]? = some p)
    (hpasses : u.passes = s.system.passes.set index q) (hsub : q.held.Subperm p.held)
    (hids : u.table.rows.map (·.id) = s.system.table.rows.map (·.id))
    (hrows : ∀ row ∈ u.table.rows, row.dispatchedAt = none →
      ∃ old ∈ s.system.table.rows, old.id = row.id ∧ old.dispatchedAt = none ∧
        (row.claimedAt = old.claimedAt ∨ row.id ∉ q.held ∧ ∀ j p c, j ≠ index →
          s.Tenure j p c → row.id ∈ p.held → c < now - deps.leaseTime)) :
    LeaseInv deps ⟨u, now, s.since⟩ := by
  have hten (j : ℕ) (r : Pass) (c : Instant) (hj : Tenure ⟨u, now, s.since⟩ j r c) :
      (j ≠ index ∧ s.Tenure j r c) ∨ j = index ∧ r = q ∧ s.Tenure index p c := by
    have h1 : u.passes[j]? = some r := hj.1
    rw [hpasses, List.getElem?_set] at h1
    by_cases hji : index = j
    · subst hji
      have hlt := (List.getElem?_eq_some_iff.1 hp).1
      rw [if_pos rfl, if_pos hlt] at h1
      exact .inr ⟨rfl, (Option.some.inj h1).symm, hp, hj.2⟩
    · rw [if_neg hji] at h1
      exact .inl ⟨Ne.symm hji, h1, hj.2⟩
  refine h.inherit id Function.injective_id hclock ?_ ?_ ?_ ?_
  · simp only [hpasses, List.length_set, h.length]
  · intro j r c hj
    rcases hten j r c hj with ⟨-, hs⟩ | ⟨rfl, rfl, hs⟩
    · exact ⟨r, hs, List.Subperm.refl _⟩
    · exact ⟨p, hs, hsub⟩
  · intro id hid
    exact hids ▸ hid
  · intro row hrow hund
    obtain ⟨old, hold, hid, hound, hclaim⟩ := hrows row hrow hund
    refine .inr ⟨old, hold, hid, hound, hclaim.imp_right fun hexp j r c hj hheld ↦ ?_⟩
    rcases hten j r c hj with ⟨hne, hs⟩ | ⟨rfl, rfl, -⟩
    · exact hexp.2 j r c hne hs hheld
    · exact absurd hheld hexp.1

/-- What a claim does to the passes: a new one, where its rows can be decoded. -/
theorem leased_passes {u : OutboxSystem} {now dbNow : Instant} {locked : List EnvelopeId}
    (hu : s.system.leased deps now dbNow locked = u) (hlen : s.since.length = s.system.passes.length)
    {j : ℕ} {p : Pass} {c : Instant}
    (hj : Tenure ⟨u, dbNow, s.sinceAfter u (.claim now dbNow locked)⟩ j p c) :
    s.Tenure j p c ∨ j = s.system.passes.length ∧ c = dbNow ∧
      p.held.Perm ((claimRows deps s.system.table dbNow locked).map (·.id)) := by
  subst hu
  obtain ⟨hp, hc⟩ := hj
  simp only [sinceAfter] at hp hc
  rw [OutboxSystem.leased] at hp hc
  cases hcl : (Outbox.claim deps s.system.table dbNow locked).1 with
  | error e =>
    simp only [hcl, lt_irrefl, if_false] at hp hc
    exact .inl ⟨hp, hc⟩
  | ok held =>
    simp only [hcl, List.length_append, List.length_singleton, Nat.lt_add_one, if_true] at hp hc
    rw [List.getElem?_append] at hp hc
    rw [hlen] at hc
    by_cases hj : j < s.system.passes.length
    · rw [if_pos hj] at hp hc
      exact .inl ⟨hp, hc⟩
    · rw [if_neg hj] at hp hc
      obtain ⟨hlt, rfl⟩ := List.getElem?_eq_some_iff.1 hp
      obtain ⟨hlt', rfl⟩ := List.getElem?_eq_some_iff.1 hc
      rw [List.length_singleton] at hlt
      refine .inr ⟨by omega, List.getElem_singleton _, ?_⟩
      rw [List.getElem_singleton, Pass.held, List.append_nil]
      exact claim_held_ids hcl

theorem LeaseInv.claim (h : LeaseInv deps s) {now dbNow : Instant} {locked : List EnvelopeId}
    (hclock : s.clock ≤ dbNow) : LeaseInv deps ⟨s.system.leased deps now dbNow locked, dbNow,
      s.sinceAfter (s.system.leased deps now dbNow locked) (.claim now dbNow locked)⟩ := by
  have hten {j p c} := @leased_passes deps s _ now dbNow locked rfl h.length j p c
  have hids : (s.system.leased deps now dbNow locked).table.rows.map (·.id) =
      s.system.table.rows.map (·.id) := claim_ids
  have hrow {row : OutboxRow} (hr : row ∈ (s.system.leased deps now dbNow locked).table.rows) :=
    mem_claim.1 hr
  -- the lease an older pass has on a row that is claimed has run out
  have hold {i : ℕ} {p : Pass} {c : Instant} (hi : s.Tenure i p c) {row : OutboxRow}
      (hr : row ∈ claimRows deps s.system.table dbNow locked) (hid : row.id ∈ p.held) :
      c < dbNow - deps.leaseTime := by
    obtain ⟨hmem, hfree⟩ := claimRows_free hr
    obtain ⟨hund, hlt⟩ := isFree_iff.1 hfree
    rcases h.owned i p c hi row hmem hid hund with hc | hc
    · exact hlt c hc
    · exact hc.trans_le (sub_le_sub_right hclock _)
  refine ⟨?_, ?_, ?_, ?_, ?_⟩
  · have hpasses : (s.system.leased deps now dbNow locked).passes = s.system.passes ∨
        ∃ p, (s.system.leased deps now dbNow locked).passes = s.system.passes ++ [p] := by
      rw [OutboxSystem.leased]
      cases hcl : (Outbox.claim deps s.system.table dbNow locked).1 with
      | error e => exact .inl rfl
      | ok held => exact .inr ⟨_, rfl⟩
    rw [sinceAfter]
    rcases hpasses with hp | ⟨p, hp⟩
    · rw [hp, if_neg (lt_irrefl _), h.length]
    · rw [hp, List.length_append, List.length_singleton, if_pos (Nat.lt_add_one _),
        List.length_append, h.length, List.length_singleton]
  · intro j p c hj id hid
    rw [hids]
    rcases hten hj with hs | ⟨-, -, hperm⟩
    · exact h.known j p c hs id hid
    · obtain ⟨row, hr, rfl⟩ := List.mem_map.1 (hperm.mem_iff.1 hid)
      exact List.mem_map_of_mem (claimRows_free hr).1
  · intro j p c hj
    rcases hten hj with hs | ⟨-, -, hperm⟩
    · exact h.nodup j p c hs
    · exact hperm.nodup_iff.2 claimRows_nodup
  · intro j p c hj row hr hid hund
    rcases hrow hr with ⟨old, ho, rfl⟩ | ⟨hr, hn⟩
    · rcases hten hj with hs | ⟨-, rfl, -⟩
      · exact .inr (hold hs ho hid)
      · exact .inl rfl
    · rcases hten hj with hs | ⟨-, -, hperm⟩
      · rcases h.owned j p c hs row hr hid hund with hc | hc
        · exact .inl hc
        · exact .inr (hc.trans_le (sub_le_sub_right hclock _))
      · exact absurd (hperm.mem_iff.1 hid) hn
  · intro row hr hund i j p q c d hi hj hip hjq hc hd
    rcases hrow hr with ⟨old, ho, rfl⟩ | ⟨hr, hn⟩
    · rcases hten hi with hsi | ⟨hieq, -, -⟩
      · exact absurd hc (not_le.2 (hold hsi ho hip))
      · rcases hten hj with hsj | ⟨hjeq, -, -⟩
        · exact absurd hd (not_le.2 (hold hsj ho hjq))
        · exact hieq.trans hjeq.symm
    · rcases hten hi with hsi | ⟨-, -, hperm⟩
      · rcases hten hj with hsj | ⟨-, -, hperm⟩
        · refine h.exclusive row hr hund i j p q c d hsi hsj hip hjq ?_ ?_
          · exact (sub_le_sub_right hclock _).trans hc
          · exact (sub_le_sub_right hclock _).trans hd
        · exact absurd (hperm.mem_iff.1 hjq) hn
      · exact absurd (hperm.mem_iff.1 hip) hn

section Settle

variable {index : ℕ} {p : Pass} {held : Held} {rest : List Held} {now : Instant}

theorem LeaseInv.tenure (h : LeaseInv deps s) (hp : s.system.passes[index]? = some p) :
    ∃ c, s.Tenure index p c := by
  have hlt : index < s.since.length := h.length ▸ (List.getElem?_eq_some_iff.1 hp).1
  exact ⟨s.since[index], hp, List.getElem?_eq_getElem hlt⟩

/-- Nobody else has a current lease on what a pass may settle. -/
theorem LeaseInv.others (h : LeaseInv deps s) (hclock : s.clock ≤ now) {c : Instant}
    (hi : s.Tenure index p c) {row : OutboxRow} (hr : row ∈ s.system.table.rows)
    (hid : row.id ∈ p.held) (hund : row.dispatchedAt = none)
    (ho : row.isFree now deps.leaseTime = true ∨ row.claimedAt = some c) {j : ℕ} {q : Pass}
    {d : Instant} (hj : s.Tenure j q d) (hne : j ≠ index) (hjq : row.id ∈ q.held) :
    d < now - deps.leaseTime := by
  have hle := sub_le_sub_right hclock deps.leaseTime
  rcases h.owned j q d hj row hr hjq hund with hd | hd
  · rcases ho with hf | hc
    · exact (isFree_iff.1 hf).2 d hd
    · by_contra hcur
      have hcd : c = d := Option.some.inj (hc.symm.trans hd)
      have hcurrent : s.Current deps d := hle.trans (not_lt.1 hcur)
      exact hne (h.exclusive row hr hund j index q p d c hj hi hjq hid hcurrent (hcd ▸ hcurrent))
  · exact hd.trans_le hle

theorem held_cons (hc : p.pending = held :: rest) :
    p.held = held.envelope.id :: (rest.map (·.envelope.id) ++ p.delivered) := by
  rw [Pass.held, hc]
  rfl

/-- The rows after a failure is recorded. -/
theorem LeaseInv.recorded (h : LeaseInv deps s) (hclock : s.clock ≤ now)
    (hp : s.system.passes[index]? = some p) (hc : p.pending = held :: rest) {detail : JsString}
    (ho : ∀ c, s.Tenure index p c → ∀ row ∈ s.system.table.rows, row.id = held.envelope.id →
      row.dispatchedAt = none → row.isFree now deps.leaseTime = true ∨ row.claimedAt = some c)
    {row : OutboxRow}
    (hr : row ∈ (s.system.table.recordFailure held.envelope.id detail p.now).rows)
    (hund : row.dispatchedAt = none) :
    ∃ old ∈ s.system.table.rows, old.id = row.id ∧ old.dispatchedAt = none ∧
      (row.claimedAt = old.claimedAt ∨
        row.id ∉ rest.map (·.envelope.id) ++ p.delivered ∧ ∀ j q d, j ≠ index →
          s.Tenure j q d → row.id ∈ q.held → d < now - deps.leaseTime) := by
  obtain ⟨c, hi⟩ := h.tenure hp
  rw [OutboxTable.recordFailure] at hr
  rcases OutboxTable.mem_update.1 hr with ⟨old, hold, hid, rfl⟩ | ⟨hold, -⟩
  · rw [List.mem_singleton] at hid
    have hn := h.nodup index p c hi
    rw [held_cons hc, List.nodup_cons] at hn
    have hheld : old.id ∈ p.held := by
      rw [held_cons hc, hid]
      exact .head _
    refine ⟨old, hold, rfl, hund, .inr ⟨?_, ?_⟩⟩
    · intro hm
      exact hn.1 (hid ▸ hm)
    · intro j q d hne hj hjq
      exact h.others hclock hi hold hheld hund (ho c hi old hold hid hund) hj hne hjq
  · exact ⟨row, hold, rfl, hund, .inl rfl⟩

theorem LeaseInv.drop (h : LeaseInv deps s) (hclock : s.clock ≤ now) (index : ℕ) :
    LeaseInv deps ⟨s.system.drop index, now, s.since.eraseIdx index⟩ :=
  h.leave hclock rfl rfl fun row hr hund ↦ ⟨row, hr, rfl, hund, .inl rfl⟩

theorem LeaseInv.fails (h : LeaseInv deps s) (hclock : s.clock ≤ now)
    (hp : s.system.passes[index]? = some p) (hc : p.pending = held :: rest) (detail : JsString)
    (recording : Recording)
    (ho : recording ≠ .failed → ∀ c, s.Tenure index p c → ∀ row ∈ s.system.table.rows,
      row.id = held.envelope.id → row.dispatchedAt = none →
        row.isFree now deps.leaseTime = true ∨ row.claimedAt = some c) :
    LeaseInv deps ⟨s.system.failed deps index p held rest detail recording, now,
      s.sinceAfter (s.system.failed deps index p held rest detail recording)
        (.deliveryFails index detail recording)⟩ := by
  have hlt := (List.getElem?_eq_some_iff.1 hp).1
  have hshort : (s.system.passes.eraseIdx index).length < s.system.passes.length := by
    rw [List.length_eraseIdx_of_lt hlt]
    omega
  have hdrop : LeaseInv deps ⟨s.system.drop index, now,
      s.sinceAfter (s.system.drop index) (.deliveryFails index detail recording)⟩ := by
    rw [sinceAfter]
    have hlen : (s.system.drop index).passes.length < s.system.passes.length := hshort
    rw [if_pos hlen]
    exact h.drop hclock index
  cases ha : s.system.table.attemptsOf held.envelope.id with
  | none =>
    have hd : s.system.failed deps index p held rest detail recording = s.system.drop index := by
      cases recording <;> simp only [OutboxSystem.failed, ha]
    exact hd ▸ hdrop
  | some attempts =>
    cases recording with
    | failed =>
      have hd : s.system.failed deps index p held rest detail .failed = s.system.drop index := by
        simp only [OutboxSystem.failed]
      exact hd ▸ hdrop
    | lost =>
      have hl : s.system.failed deps index p held rest detail .lost =
          s.system.record index p held detail := by simp only [OutboxSystem.failed, ha]
      have hlen : (s.system.record index p held detail).passes.length <
          s.system.passes.length := hshort
      rw [hl, sinceAfter, if_pos hlen]
      refine h.leave hclock rfl recordFailure_ids fun row hr hund ↦ ?_
      obtain ⟨old, hold, hid, hound, hclaim⟩ := h.recorded hclock hp hc (ho (by simp)) hr hund
      exact ⟨old, hold, hid, hound, hclaim.imp_right And.right⟩
    | answered =>
      have hl : (s.system.failed deps index p held rest detail .answered).passes =
            s.system.passes.set index (p.afterFailure deps.maxAttempts (attempts + 1) rest) ∧
          (s.system.failed deps index p held rest detail .answered).table =
            s.system.table.recordFailure held.envelope.id detail p.now := by
        constructor
        · simp only [OutboxSystem.failed, ha]
        · simp only [OutboxSystem.failed, ha]
          rfl
      have hlen : ¬ (s.system.failed deps index p held rest detail .answered).passes.length <
          s.system.passes.length := by
        rw [hl.1, List.length_set]
        exact lt_irrefl _
      rw [sinceAfter, if_neg hlen]
      refine h.goOn hclock hp hl.1 ?_ ?_ fun row hr hund ↦ ?_
      · rw [held_cons hc]
        exact (List.sublist_cons_self _ _).subperm
      · rw [hl.2]
        exact recordFailure_ids
      · rw [hl.2] at hr
        exact h.recorded hclock hp hc (ho (by simp)) hr hund

end Settle

theorem mem_mark {p : Pass} {t : OutboxTable} {row : OutboxRow} (h : row ∈ (p.mark t).rows)
    (hund : row.dispatchedAt = none) : row ∈ t.rows := by
  rw [Pass.mark] at h
  split_ifs at h
  · exact h
  · rw [OutboxTable.markDispatched] at h
    rcases OutboxTable.mem_update.1 h with ⟨old, -, -, rfl⟩ | ⟨hr, -⟩
    · cases hund
    · exact hr

theorem mark_ids {p : Pass} {t : OutboxTable} :
    (p.mark t).rows.map (·.id) = t.rows.map (·.id) := by
  rw [Pass.mark]
  split_ifs
  · rfl
  · rw [OutboxTable.markDispatched, OutboxTable.map_id_update]

theorem step_inv (h : LeaseInv deps s) (ho : s.SettlesOwn deps a) (hs : s.step deps a = some t) :
    LeaseInv deps t := by
  obtain ⟨hclock, htime, u, hu, rfl⟩ := step_some hs
  obtain ⟨now, action⟩ := a
  cases action with
  | enqueue events =>
    obtain rfl := Option.some.inj hu
    refine h.inherit id Function.injective_id hclock h.length (fun j p c hj ↦ ?_)
      (fun id hid ↦ enqueue_ids events hid) (fun row hr hund ↦ ?_)
    · exact ⟨p, hj, List.Subperm.refl _⟩
    · rcases of_mem_enqueue hr with hr | hn
      · exact .inr ⟨row, hr, rfl, hund, .inl rfl⟩
      · exact .inl hn
  | claim stamp dbNow locked =>
    obtain rfl := Option.some.inj hu
    have hnow : dbNow = now := of_decide_eq_true htime
    subst hnow
    exact h.claim hclock
  | deliver index =>
    obtain ⟨p, hp, hu⟩ := Option.bind_eq_some_iff.1 hu
    cases hc : p.pending with
    | nil =>
      rw [hc] at hu
      cases hu
    | cons held rest =>
      rw [hc] at hu
      obtain rfl := Option.some.inj hu
      refine h.goOn hclock hp rfl ?_ rfl fun row hr hund ↦ ⟨row, hr, rfl, hund, .inl rfl⟩
      rw [held_cons hc, Pass.held, Pass.afterDelivery, ← List.append_assoc]
      exact (List.perm_append_singleton _ _).subperm
  | deliveryFails index detail recording =>
    obtain ⟨p, hp, hu⟩ := Option.bind_eq_some_iff.1 hu
    cases hc : p.pending with
    | nil =>
      rw [hc] at hu
      cases hu
    | cons held rest =>
      rw [hc] at hu
      obtain rfl := Option.some.inj hu
      refine h.fails hclock hp hc detail recording fun hr c hi row hrow hid hund ↦ ?_
      apply ho index p c rfl hi row hrow _ hund
      rw [OutboxAction.settles, if_neg hr, hc, hid]
      exact .head _
  | finish index returned =>
    obtain ⟨p, hp, hu⟩ := Option.bind_eq_some_iff.1 hu
    cases hc : p.pending with
    | nil =>
      rw [hc] at hu
      obtain rfl := Option.some.inj hu
      exact h.leave hclock rfl mark_ids fun row hr hund ↦
        ⟨row, mem_mark hr hund, rfl, hund, .inl rfl⟩
    | cons held rest =>
      rw [hc] at hu
      cases hu
  | crash index =>
    obtain rfl := Option.some.inj hu
    exact h.drop hclock index

/-- A failure is recorded in the table or it is not. -/
theorem failed_table (deps : OutboxDispatchDeps) (s : OutboxSystem) (index : ℕ) (p : Pass)
    (held : Held) (rest : List Held) (detail : JsString) (recording : Recording) :
    (s.failed deps index p held rest detail recording).table = s.table ∨ recording ≠ .failed ∧
      (s.failed deps index p held rest detail recording).table =
        s.table.recordFailure held.envelope.id detail p.now := by
  cases ha : s.table.attemptsOf held.envelope.id with
  | none =>
    left
    cases recording <;> simp only [OutboxSystem.failed, ha] <;> rfl
  | some attempts =>
    cases recording with
    | failed =>
      left
      simp only [OutboxSystem.failed]
      rfl
    | lost =>
      right
      refine ⟨by simp, ?_⟩
      simp only [OutboxSystem.failed, ha]
      rfl
    | answered =>
      right
      refine ⟨by simp, ?_⟩
      simp only [OutboxSystem.failed, ha]
      rfl

/-- A row that is not settled stays. -/
theorem mem_update_of_notMem {t : OutboxTable} {ids : List EnvelopeId} {f : OutboxRow → OutboxRow}
    {hf : ∀ row, (f row).id = row.id} {row : OutboxRow} (hr : row ∈ t.rows) (hn : row.id ∉ ids) :
    row ∈ (t.update ids f hf).rows := OutboxTable.mem_update.2 (.inr ⟨hr, hn⟩)

theorem LeaseInv.undisturbed (h : LeaseInv deps s) (ho : s.SettlesOwn deps a) :
    s.Undisturbed deps a := by
  intro t hs j q d hne hj hcur row hr hjq hund hd
  obtain ⟨hclock, htime, u, hu, rfl⟩ := step_some hs
  obtain ⟨now, action⟩ := a
  have hbusy : row.isFree now deps.leaseTime ≠ true := by
    intro hf
    exact absurd ((isFree_iff.1 hf).2 d hd) (not_lt.2 hcur)
  -- what a pass settles is under its own lease, and that is not this one
  have hother {i : ℕ} {p : Pass} (hi : s.system.passes[i]? = some p)
      (hact : action.actor = some i) : row.id ∈ action.settles p → row.id ∉ p.held := by
    intro hset hheld
    obtain ⟨c, hten⟩ := h.tenure hi
    have hlt := h.others hclock hten hr hheld hund (ho i p c hact hten row hr hset hund) hj
      (fun hji ↦ hne (hji ▸ hact)) hjq
    exact absurd hlt (not_lt.2 hcur)
  cases action with
  | enqueue events =>
    obtain rfl := Option.some.inj hu
    exact mem_enqueue events hr
  | claim stamp dbNow locked =>
    obtain rfl := Option.some.inj hu
    have hnow : dbNow = now := of_decide_eq_true htime
    subst hnow
    refine mem_claim.2 (.inr ⟨hr, fun hid ↦ ?_⟩)
    exact hbusy (claimRows_free (mem_claimRows hr hid)).2
  | deliver index =>
    obtain ⟨p, -, hu⟩ := Option.bind_eq_some_iff.1 hu
    cases hc : p.pending with
    | nil =>
      rw [hc] at hu
      cases hu
    | cons held rest =>
      rw [hc] at hu
      obtain rfl := Option.some.inj hu
      exact hr
  | deliveryFails index detail recording =>
    obtain ⟨p, hp, hu⟩ := Option.bind_eq_some_iff.1 hu
    cases hc : p.pending with
    | nil =>
      rw [hc] at hu
      cases hu
    | cons held rest =>
      rw [hc] at hu
      obtain rfl := Option.some.inj hu
      have hid (hrec : recording ≠ .failed) : row.id ≠ held.envelope.id := by
        intro hid
        refine hother hp rfl ?_ ?_
        · rw [OutboxAction.settles, if_neg hrec, hc, hid]
          exact .head _
        · rw [held_cons hc, hid]
          exact .head _
      have hrecord (hrec : recording ≠ .failed) :
          row ∈ (s.system.table.recordFailure held.envelope.id detail p.now).rows :=
        mem_update_of_notMem hr fun hm ↦ hid hrec (List.mem_singleton.1 hm)
      rcases failed_table deps s.system index p held rest detail recording with ht | ⟨hrec, ht⟩
      · exact ht ▸ hr
      · exact ht ▸ hrecord hrec
  | finish index returned =>
    obtain ⟨p, hp, hu⟩ := Option.bind_eq_some_iff.1 hu
    cases hc : p.pending with
    | nil =>
      rw [hc] at hu
      obtain rfl := Option.some.inj hu
      have hid : row.id ∉ p.delivered := by
        intro hid
        exact hother hp rfl hid (List.mem_append_right _ hid)
      change row ∈ (p.mark s.system.table).rows
      rw [Pass.mark]
      split_ifs
      · exact hr
      · exact mem_update_of_notMem hr hid
    | cons held rest =>
      rw [hc] at hu
      cases hu
  | crash index =>
    obtain rfl := Option.some.inj hu
    exact hr

/-- A claim that finds one row. -/
theorem step_claim {now dbNow : Instant} {locked : List EnvelopeId} (row : OutboxRow) (held : Held)
    (h : s.system.table.claimable dbNow deps.leaseTime locked = [row]) (hb : 0 < deps.batch)
    (hd : heldOf row = .ok held) (hclock : s.clock ≤ dbNow) :
    s.step deps ⟨dbNow, .claim now dbNow locked⟩ = some ⟨{ s.system with
      table := s.system.table.lease dbNow [row]
      passes := s.system.passes ++ [⟨now, 1, [held], [], 0, 0⟩]
      claims := (row.id, row.attempts) :: s.system.claims }, dbNow, s.since ++ [dbNow]⟩ := by
  have hs : s.system.step deps (.claim now dbNow locked) =
      some (s.system.leased deps now dbNow locked) := rfl
  rw [step, if_pos ⟨hclock, decide_eq_true rfl⟩, hs,
    OutboxSystem.leased_single row held h hb hd, Option.map_some, sinceAfter, if_pos]
  rw [List.length_append]
  exact Nat.lt_add_one _

open OutboxSystem (codeUnits renamed)

def fiveMinutes : OutboxDispatchDeps := ⟨10, 5, 300000, codeUnits, codeUnits⟩

end LeaseSystem

end Counted.Outbox
