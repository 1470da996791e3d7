import Counted.Foundations.Run
import Counted.Ingestion.GroupCommit
import Counted.Tenancy.Workspace

namespace Counted.Api

open Foundations Tenancy
open Ingestion hiding WorkspaceId

structure QuotaDeps where
  refresh : Duration := 60000
  unclaimedAllowance : ℕ := 100000

structure Reading where
  used : ℕ
  readAt : Instant

/-- An entry of the cache, with the reading the engine gave for it and what has been recorded for
its key since the engine was asked. -/
structure CachedReading extends Reading where
  key : JsString
  value : ℕ
  recorded : ℕ

inductive Ceiling
  | unclaimed
  | plan (eventsPerMonth : ℕ)
  deriving DecidableEq

/-- A check that found no reading it could use. -/
structure PendingCheck where
  key : JsString
  ceiling : Ceiling
  count : ℕ
  at' : Instant

/-- A check the engine has been asked for, with the reading it will answer. -/
structure AskedCheck extends PendingCheck where
  value : ℕ
  recorded : ℕ

/-- A figure that was compared against a limit, and the reading it rests on. -/
structure Compared where
  key : JsString
  figure : ℕ
  value : ℕ
  recorded : ℕ
  verdict : QuotaVerdict

structure QuotaState where
  readings : List CachedReading := []
  waiting : List PendingCheck := []
  asked : List AskedCheck := []
  compared : List Compared := []

inductive QuotaAction
  | check (project : ProjectId) (count : ℕ) (at' : Instant)
      (workspace : Option (Option WorkspaceId)) (entitlement : Option Entitlement)
  | ask (i : ℕ) (buckets : List ℕ)
  | unknown (i : ℕ)
  | answer (i : ℕ) (ok : Bool)
  | record (workspace : WorkspaceId) (count : ℕ) (project : ProjectId)

/-- `Quota.accepts` of `Quota.decide`: an allowance holds up to 1.3 times what it says. -/
def accepts (limit used : ℕ) : Bool := used < limit || 10 * used < 13 * limit

def unclaimedKey (project : ProjectId) : JsString := js "unclaimed:" ++ project

/-- The keys that `record` advances. -/
def keysOf (workspace : WorkspaceId) (project : ProjectId) : List JsString :=
  [workspace, unclaimedKey project]

def CachedReading.credit (key : JsString) (count : ℕ) (r : CachedReading) : CachedReading :=
  if r.key = key then { r with used := r.used + count } else r

def CachedReading.note (keys : List JsString) (count : ℕ) (r : CachedReading) : CachedReading :=
  { r with recorded := r.recorded + if r.key ∈ keys then count else 0 }

def AskedCheck.note (keys : List JsString) (count : ℕ) (q : AskedCheck) : AskedCheck :=
  { q with recorded := q.recorded + if q.key ∈ keys then count else 0 }

namespace QuotaState

variable (deps : QuotaDeps) (s : QuotaState)

def stale (reading : Reading) (at' : Instant) : Bool := deps.refresh ≤ at' - reading.readAt

def verdictOf (used : ℕ) : Ceiling → QuotaVerdict
  | .unclaimed =>
    if deps.unclaimedAllowance < used then .planExceeded deps.unclaimedAllowance used else .allowed
  | .plan limit => if accepts limit used then .allowed else .planExceeded limit used

def compare (p : PendingCheck) (used value recorded : ℕ) : QuotaState :=
  let figure := used + p.count
  { s with
    compared := s.compared ++ [⟨p.key, figure, value, recorded, verdictOf deps figure p.ceiling⟩] }

/-- `usedBy` and `unclaimedUsedBy`, up to where they wait for the reading. -/
def usedBy (p : PendingCheck) : QuotaState :=
  let cached := Keyed.lookup CachedReading.key p.key s.readings
  match cached.filter (fun r ↦ !stale deps r.toReading p.at') with
  | some r => s.compare deps p r.used r.value r.recorded
  | none => { s with waiting := s.waiting ++ [p] }

/-- `check`, from where the project's workspace and its entitlement are known. A verdict that
needs no reading compares nothing. -/
def check (project : ProjectId) (count : ℕ) (at' : Instant) :
    Option (Option WorkspaceId) → Option Entitlement → QuotaState
  | none, _ => s
  | some none, _ => s.usedBy deps ⟨unclaimedKey project, .unclaimed, count, at'⟩
  | some (some _), none => s
  | some (some workspace), some entitlement =>
    match entitlement.limits.eventsPerMonth with
    | none => s
    | some limit => s.usedBy deps ⟨workspace, .plan limit, count, at'⟩

/-- Replaces the cached reading, whatever was recorded while this one was under way. -/
def install (q : AskedCheck) : QuotaState :=
  { s with
    readings := Keyed.upsert CachedReading.key ⟨⟨q.value, q.at'⟩, q.key, q.value, q.recorded⟩
      s.readings }

def record (workspace : WorkspaceId) (count : ℕ) (project : ProjectId) : QuotaState :=
  let keys := keysOf workspace project
  let credited := keys.foldl (fun readings key ↦ readings.map (.credit key count)) s.readings
  { s with readings := credited.map (.note keys count), asked := s.asked.map (.note keys count) }

def step (s : QuotaState) : QuotaAction → Option QuotaState
  | .check project count at' workspace entitlement =>
    some (s.check deps project count at' workspace entitlement)
  | .ask i buckets => s.waiting[i]?.map (fun p ↦
    { s with waiting := s.waiting.eraseIdx i, asked := s.asked ++ [⟨p, buckets.sum, 0⟩] })
  | .unknown i => (s.waiting[i]?.filter (·.ceiling = .unclaimed)).map (fun _ ↦
    { s with waiting := s.waiting.eraseIdx i })
  | .answer i ok => s.asked[i]?.map (fun q ↦
    let s := { s with asked := s.asked.eraseIdx i }
    if ok then (s.install q).compare deps q.toPendingCheck q.value q.value q.recorded else s)
  | .record workspace count project => some (s.record workspace count project)

/-- No count recorded for a key is missing from what its checks compared, nor from its cached
reading. -/
structure Remembers (key : JsString) : Prop where
  compared : ∀ c ∈ s.compared, c.key = key → c.value + c.recorded ≤ c.figure
  readings : ∀ r ∈ s.readings, r.key = key → r.value + r.recorded ≤ r.used

/-- A reading for the key is answered only while nothing has been recorded for it since the engine
was asked. -/
def Undisturbed (key : JsString) (s : QuotaState) : QuotaAction → Prop
  | .answer i true => ∀ q ∈ s.asked[i]?, q.key = key → q.recorded = 0
  | .check .. | .ask .. | .unknown _ | .answer _ false | .record .. => True

variable {deps s} {t : QuotaState} {key : JsString}

theorem Remembers.of_eq (h : s.Remembers key) (hc : t.compared = s.compared)
    (hr : t.readings = s.readings) : t.Remembers key :=
  ⟨hc ▸ h.compared, hr ▸ h.readings⟩

theorem Remembers.compare (h : s.Remembers key) {p : PendingCheck} {used value recorded : ℕ}
    (hu : p.key = key → value + recorded ≤ used + p.count) :
    (s.compare deps p used value recorded).Remembers key := by
  refine ⟨fun c hc hk ↦ ?_, h.readings⟩
  rcases List.mem_append.1 hc with hc | hc
  · exact h.compared c hc hk
  · obtain rfl := List.mem_singleton.1 hc
    exact hu hk

theorem Remembers.usedBy (h : s.Remembers key) (p : PendingCheck) :
    (s.usedBy deps p).Remembers key := by
  rw [QuotaState.usedBy]
  cases hf : (Keyed.lookup CachedReading.key p.key s.readings).filter
      (fun r ↦ !stale deps r.toReading p.at') with
  | none => exact h.of_eq rfl rfl
  | some r =>
    obtain ⟨hr, hk⟩ := Keyed.lookup_eq_some (Option.eq_some_of_filter_eq_some hf)
    apply h.compare
    intro hp
    exact (h.readings r hr (hk.trans hp)).trans (Nat.le_add_right _ _)

theorem Remembers.check (h : s.Remembers key) (project : ProjectId) (count : ℕ) (at' : Instant)
    (workspace : Option (Option WorkspaceId)) (entitlement : Option Entitlement) :
    (s.check deps project count at' workspace entitlement).Remembers key := by
  match workspace, entitlement with
  | none, _ => exact h
  | some none, _ => exact h.usedBy _
  | some (some _), none => exact h
  | some (some _), some entitlement =>
    rw [QuotaState.check]
    cases entitlement.limits.eventsPerMonth with
    | none => exact h
    | some limit => exact h.usedBy _

theorem Remembers.install (h : s.Remembers key) {q : AskedCheck}
    (hq : q.key = key → q.recorded = 0) : (s.install q).Remembers key := by
  refine ⟨h.compared, fun r hr hk ↦ ?_⟩
  rcases Keyed.mem_upsert.1 hr with rfl | ⟨hr, -⟩
  · exact (congrArg (q.value + ·) (hq hk)).le
  · exact h.readings r hr hk

/-- What is credited to a list of keys is credited to each reading in turn. -/
theorem foldl_credit (keys : List JsString) (count : ℕ) (readings : List CachedReading) :
    keys.foldl (fun readings key ↦ readings.map (.credit key count)) readings =
      readings.map (fun r ↦ keys.foldl (fun r key ↦ r.credit key count) r) := by
  induction keys generalizing readings with
  | nil => exact (List.map_id readings).symm
  | cons key keys ih => rw [List.foldl_cons, ih, List.map_map]; rfl

theorem credit_frame (key : JsString) (count : ℕ) (r : CachedReading) :
    (r.credit key count).key = r.key ∧ (r.credit key count).value = r.value ∧
      (r.credit key count).recorded = r.recorded ∧ r.used ≤ (r.credit key count).used := by
  rw [CachedReading.credit]
  split_ifs
  · exact ⟨rfl, rfl, rfl, Nat.le_add_right _ _⟩
  · exact ⟨rfl, rfl, rfl, le_rfl⟩

/-- A cached reading gains what is recorded for its key. -/
theorem credited (keys : List JsString) (count : ℕ) (r : CachedReading) :
    let c := keys.foldl (fun r key ↦ r.credit key count) r
    c.key = r.key ∧ c.value = r.value ∧ c.recorded = r.recorded ∧
      r.used + (if r.key ∈ keys then count else 0) ≤ c.used := by
  induction keys generalizing r with
  | nil => exact ⟨rfl, rfl, rfl, le_rfl⟩
  | cons key keys ih =>
    obtain ⟨hk, hv, hr, hu⟩ := credit_frame key count r
    obtain ⟨ihk, ihv, ihr, ihu⟩ := ih (r.credit key count)
    refine ⟨ihk.trans hk, ihv.trans hv, ihr.trans hr, le_trans ?_ ihu⟩
    by_cases hrk : r.key = key
    · have hc : (r.credit key count).used = r.used + count := by rw [CachedReading.credit, if_pos hrk]
      rw [hc, if_pos (hrk ▸ List.mem_cons_self)]
      exact Nat.le_add_right _ _
    · rw [hk]
      simp only [List.mem_cons, hrk, false_or]
      exact Nat.add_le_add_right hu _

theorem Remembers.record (h : s.Remembers key) (workspace : WorkspaceId) (count : ℕ)
    (project : ProjectId) : (s.record workspace count project).Remembers key := by
  refine ⟨h.compared, fun r hr hk ↦ ?_⟩
  rw [QuotaState.record] at hr
  dsimp only at hr
  rw [foldl_credit, List.map_map] at hr
  obtain ⟨o, ho, rfl⟩ := List.mem_map.1 hr
  obtain ⟨ck, cv, cr, cu⟩ := credited (keysOf workspace project) count o
  have hle := h.readings o ho (ck.symm.trans hk)
  simp only [Function.comp_apply, CachedReading.note, ck, cv, cr]
  omega

/-- Only the answer to a reading that something was recorded during makes the cache forget. -/
theorem remembers_step {a : QuotaAction} (h : s.Remembers key) (ha : step deps s a = some t) :
    t.Remembers key ↔ Undisturbed key s a := by
  cases a with
  | check project count at' workspace entitlement =>
    cases ha
    exact iff_of_true (h.check ..) trivial
  | ask i buckets =>
    obtain ⟨p, -, rfl⟩ := Option.map_eq_some_iff.1 ha
    exact iff_of_true (h.of_eq rfl rfl) trivial
  | unknown i =>
    obtain ⟨p, -, rfl⟩ := Option.map_eq_some_iff.1 ha
    exact iff_of_true (h.of_eq rfl rfl) trivial
  | answer i ok =>
    obtain ⟨q, hq, rfl⟩ := Option.map_eq_some_iff.1 ha
    cases ok with
    | false => exact iff_of_true (h.of_eq rfl rfl) trivial
    | true =>
      constructor
      · intro ht q' hq' hk
        obtain rfl := Option.mem_unique hq hq'
        have hi := ht.readings _ (Keyed.mem_upsert.2 (.inl rfl)) hk
        exact Nat.le_zero.1 ((Nat.add_le_add_iff_left (n := q.value)).1 hi)
      · intro hC
        have h' : QuotaState.Remembers { s with asked := s.asked.eraseIdx i } key := h.of_eq rfl rfl
        apply (h'.install (hC q hq)).compare
        intro hk
        rw [hC q hq hk]
        exact Nat.le_add_right _ _
  | record workspace count project =>
    cases ha
    exact iff_of_true (h.record ..) trivial

/-- In a run of checks and records, no figure compared and no cached reading for a key misses a
recorded count exactly if no reading for it is answered after something was recorded for it. -/
theorem readings_remember (deps : QuotaDeps) (key : JsString) (l : List QuotaAction) :
    Throughout (step deps) (Remembers · key) {} l ↔ Along (step deps) (Undisturbed key) {} l := by
  apply throughout_iff_along (I := fun _ ↦ True)
  · intro _ _ _ _ _
    trivial
  · intro s a t _ h ha
    exact remembers_step h ha
  · intro s a ha
    match a, ha with
    | .check .., ha | .record .., ha => cases ha
    | .ask .., _ | .unknown _, _ | .answer _ false, _ => trivial
    | .answer i true, ha =>
      intro q hq
      rw [step, Option.mem_def.1 hq] at ha
      cases ha
  · trivial
  · exact ⟨fun _ hc ↦ absurd hc List.not_mem_nil, fun _ hr ↦ absurd hr List.not_mem_nil⟩

/-- A group of 200000 events is recorded while a stale reading is being refreshed. -/
def refreshedMeanwhile : List QuotaAction :=
  let check (at' : Instant) : QuotaAction := .check (js "pr_1") 1 at' (some (some (js "ws_1")))
    (some (Entitlement.resolve .free .none))
  [check 0, .ask 0 [0], .answer 0 true, check 60000, .ask 0 [0],
    .record (js "ws_1") 200000 (js "pr_1"), .answer 0 true, check 60001]

/-- What was compared, for which key, and what it should have come to at least. -/
def figures (s : QuotaState) : List (JsString × ℕ × ℕ) :=
  s.compared.map (fun c ↦ (c.key, c.figure, c.value + c.recorded))

/-- The check after the refresh compares a figure of 1, twice the allowance having been recorded
since the reading that the figure rests on. -/
theorem readings_forget :
    (run (step {}) {} refreshedMeanwhile).map figures =
        some [(js "ws_1", 1, 0), (js "ws_1", 1, 200000), (js "ws_1", 1, 200000)] ∧
      ¬ Throughout (step {}) (Remembers · (js "ws_1")) {} refreshedMeanwhile := by
  have hf : (run (step {}) {} refreshedMeanwhile).map figures =
      some [(js "ws_1", 1, 0), (js "ws_1", 1, 200000), (js "ws_1", 1, 200000)] := rfl
  refine ⟨hf, fun h ↦ ?_⟩
  obtain ⟨t, ht, hc⟩ := Option.map_eq_some_iff.1 hf
  have hm : (js "ws_1", 1, 200000) ∈ t.figures :=
    hc ▸ List.mem_cons_of_mem _ List.mem_cons_self
  obtain ⟨c, hcm, he⟩ := List.mem_map.1 hm
  obtain ⟨hk, hf, hv⟩ : c.key = js "ws_1" ∧ c.figure = 1 ∧ c.value + c.recorded = 200000 :=
    ⟨congrArg Prod.fst he, congrArg (·.2.1) he, congrArg (·.2.2) he⟩
  have hle := (h.last ht).compared c hcm hk
  omega

end QuotaState

end Counted.Api
