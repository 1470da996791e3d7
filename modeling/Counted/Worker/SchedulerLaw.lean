import Counted.Worker.Scheduler

namespace Counted.Worker

open Foundations

/-- What the scheduler knows of one job, and the runs of it so far. -/
structure JobView where
  entry : Option (JobName × ℕ)
  last : Option (JobName × Instant)
  runs : List JobRun

def RunCall.isThrow : RunCall → Bool
  | .promises => false
  | .throws .. => true

namespace JobView

variable (v : JobView)

def launch (run : ℕ) (name : JobName) (at' : Instant) : RunCall → JobView
  | .promises => ⟨some (name, run), v.last, v.runs ++ [⟨name, at', none⟩]⟩
  | .throws _ now => ⟨some (name, run), some (name, now), v.runs ++ [⟨name, at', some now⟩]⟩

def settle (r : JobRun) (now : Instant) : JobView :=
  ⟨none, some (r.name, now), v.runs.dropLast ++ [{ r with ended := some now }]⟩

/-- Only the last run may be in flight, and then it has an entry. The end of the last run is kept
once it has one. -/
structure Ok : Prop where
  past : ∀ r ∈ v.runs.dropLast, r.ended ≠ none
  busy : ∀ r, v.runs.getLast? = some r → r.ended = none → v.entry ≠ none
  idle : v.runs = [] → v.entry = none ∧ v.last = none
  ends : ∀ r e, v.runs.getLast? = some r → r.ended = some e → v.last.map (·.2) = some e

/-- An entry belongs to a run in flight. -/
def Fresh : Prop := v.entry ≠ none → ∃ r, v.runs.getLast? = some r ∧ r.ended = none

variable {v} {run : ℕ} {name : JobName} {at' now : Instant} {call : RunCall} {r : JobRun}

theorem runs_launch : ∃ e, (v.launch run name at' call).runs = v.runs ++ [⟨name, at', e⟩] := by
  cases call with
  | promises => exact ⟨none, rfl⟩
  | throws detail now => exact ⟨some now, rfl⟩

theorem Ok.ended (h : v.Ok) (hv : v.entry = none) : ∀ r ∈ v.runs, r.ended ≠ none := by
  intro r hr
  rcases List.eq_nil_or_concat v.runs with hnil | ⟨l, x, hl⟩
  · rw [hnil] at hr
    cases hr
  · have hpast := h.past
    have hbusy := h.busy x
    rw [hl, List.concat_eq_append] at hr hpast hbusy
    rw [List.dropLast_concat] at hpast
    rcases List.mem_append.1 hr with hr | hr
    · exact hpast r hr
    · rw [List.mem_singleton.1 hr]
      exact fun hn ↦ hbusy List.getLast?_concat hn hv

theorem Ok.launch (h : v.Ok) (hv : v.entry = none) : (v.launch run name at' call).Ok := by
  have hended := h.ended hv
  cases call with
  | promises =>
    refine ⟨?_, fun _ _ _ ↦ Option.some_ne_none _, fun hnil ↦ ?_, fun r e hr he ↦ ?_⟩
    · rw [JobView.launch, List.dropLast_concat]
      exact hended
    · exact absurd hnil (List.append_ne_nil_of_right_ne_nil _ (List.cons_ne_nil _ _))
    · rw [JobView.launch, List.getLast?_concat] at hr
      rw [← Option.some.inj hr] at he
      cases he
  | throws detail now =>
    refine ⟨?_, fun _ _ _ ↦ Option.some_ne_none _, fun hnil ↦ ?_, fun r e hr he ↦ ?_⟩
    · rw [JobView.launch, List.dropLast_concat]
      exact hended
    · exact absurd hnil (List.append_ne_nil_of_right_ne_nil _ (List.cons_ne_nil _ _))
    · rw [JobView.launch, List.getLast?_concat] at hr
      rw [← Option.some.inj hr] at he
      exact he

/-- A run that throws at once leaves an entry that belongs to no run in flight. -/
theorem fresh_launch : (v.launch run name at' call).Fresh ↔ call.isThrow = false := by
  cases call with
  | promises => exact iff_of_true (fun _ ↦ ⟨_, List.getLast?_concat, rfl⟩) rfl
  | throws detail now =>
    refine iff_of_false (fun h ↦ ?_) (by simp [RunCall.isThrow])
    obtain ⟨r, hr, he⟩ := h (Option.some_ne_none _)
    rw [JobView.launch, List.getLast?_concat] at hr
    rw [← Option.some.inj hr] at he
    cases he

theorem Ok.settle (h : v.Ok) : (v.settle r now).Ok := by
  refine ⟨?_, fun x hx he ↦ ?_, fun hnil ↦ ?_, fun x e hx he ↦ ?_⟩
  · rw [JobView.settle, List.dropLast_concat]
    exact h.past
  · rw [JobView.settle, List.getLast?_concat] at hx
    rw [← Option.some.inj hx] at he
    cases he
  · exact absurd hnil (List.append_ne_nil_of_right_ne_nil _ (List.cons_ne_nil _ _))
  · rw [JobView.settle, List.getLast?_concat] at hx
    rw [← Option.some.inj hx] at he
    exact he

theorem fresh_settle : (v.settle r now).Fresh := fun h ↦ absurd rfl h

end JobView

namespace SchedulerState

variable (s : SchedulerState)

def runsOf (name : JobName) : List JobRun := s.runs.filter (·.name = name)

def view (name : JobName) : JobView :=
  ⟨Keyed.lookup (·.1) name s.inFlight, Keyed.lookup (·.1) name s.lastFinished, s.runsOf name⟩

/-- The last run of the job ended its interval ago, or there was none. -/
def Rested (job : Job) (at' : Instant) : Prop :=
  ∀ r, (s.runsOf job.name).getLast? = some r → ∃ e, r.ended = some e ∧ e + job.every ≤ at'

/-- A tick starts the job. -/
def Starts (job : Job) (at' : Instant) : Prop := s.due job at' ∧ s.busy job.name = false

variable (jobs : List Job)

/-- A tick at least its interval after the end of a job's last run starts the job again, however
the other jobs answer. -/
def Eligible : Prop := ∀ job ∈ jobs, ∀ at' calls, s.Rested job at' →
  (s.runsOf job.name).length < ((s.tick jobs at' calls).runsOf job.name).length

/-- No job runs concurrently with itself. -/
def Single : Prop := ∀ name, ((s.runsOf name).filter (·.ended.isNone)).length ≤ 1

/-- The step starts a run of the job. -/
def StartsRun (n : JobName) : SchedulerAction → Prop
  | .wake at' _ => s.timer ∧ ∃ job ∈ jobs, job.name = n ∧ s.Starts job at'
  | .tick at' _ => ∃ job ∈ jobs, job.name = n ∧ s.Starts job at'
  | .runNow name _ _ => name = n ∧ (∃ job ∈ jobs, job.name = n) ∧ s.busy n = false
  | _ => False

end SchedulerState

/-- How the job answers if the action starts it. -/
def SchedulerAction.call (n : JobName) : SchedulerAction → RunCall
  | .wake _ calls | .tick _ calls => calls n
  | .runNow _ _ call => call
  | _ => .promises

namespace SchedulerState

variable (s : SchedulerState) (jobs : List Job)

/-- Every job that the step starts returns a promise. -/
def Promises (a : SchedulerAction) : Prop :=
  ∀ n, s.StartsRun jobs n a → (a.call n).isThrow = false

/-- While a `stop` waits, the step starts no run. -/
def Quiets (a : SchedulerAction) : Prop :=
  (∃ runs, StopCall.waiting runs ∈ s.stops) → ∀ n, ¬ s.StartsRun jobs n a

/-- A `stop` resolves only when no run is in flight. -/
def StopsClean : Prop := ∀ call t, s.step jobs (.stopResolve call) = some t →
  ∀ r ∈ s.runs, r.ended ≠ none

section Views

variable {s : SchedulerState} {jobs} {name n : JobName} {job : Job} {at' now : Instant}
  {call : RunCall} {calls : JobName → RunCall} {run : ℕ} {r : JobRun}

theorem runsOf_append (l m : List JobRun) (n : JobName) :
    (l ++ m).filter (fun r ↦ decide (r.name = n)) =
      l.filter (fun r ↦ decide (r.name = n)) ++ m.filter (fun r ↦ decide (r.name = n)) :=
  List.filter_append ..

theorem view_launch : (s.launchReporting name at' call).view name =
    (s.view name).launch s.runs.length name at' call := by
  cases call with
  | promises =>
    simp [view, runsOf, launchReporting, invoke, JobView.launch, Keyed.lookup_upsert]
  | throws detail now =>
    simp [view, runsOf, launchReporting, invoke, write, finish, JobView.launch, Keyed.lookup_upsert]

theorem view_launch_ne (h : name ≠ n) : (s.launchReporting name at' call).view n = s.view n := by
  cases call with
  | promises =>
    simp [view, runsOf, launchReporting, invoke, Keyed.lookup_upsert, h]
  | throws detail now =>
    simp [view, runsOf, launchReporting, invoke, write, finish, Keyed.lookup_upsert,
      Keyed.lookup_remove, h]

variable {u : SchedulerState}

theorem starts_congr (h : u.view job.name = s.view job.name) :
    u.Starts job at' ↔ s.Starts job at' := by
  have he : Keyed.lookup (·.1) job.name u.inFlight = Keyed.lookup (·.1) job.name s.inFlight :=
    congrArg JobView.entry h
  have hl : Keyed.lookup (·.1) job.name u.lastFinished =
      Keyed.lookup (·.1) job.name s.lastFinished := congrArg JobView.last h
  rw [Starts, Starts, due, due, busy, busy, he, hl]

theorem busy_iff : s.busy n = false ↔ (s.view n).entry = none := by
  rw [busy, view]
  simp

/-- A turn of the loop changes what is known of the job it starts, and of no other. -/
theorem tickJob_view (calls : JobName → RunCall) (acc : SchedulerState × TickCall) :
    (job.name = n → acc.1.Starts job at' → ∃ k, ((tickJob at' calls acc job).1).view n =
        (acc.1.view n).launch k n at' (calls n)) ∧
      (¬ (job.name = n ∧ acc.1.Starts job at') →
        ((tickJob at' calls acc job).1).view n = acc.1.view n) := by
  obtain ⟨s, call⟩ := acc
  unfold tickJob
  dsimp only
  split_ifs with hd hb
  · exact ⟨fun _ hs ↦ by simp [hs.1] at hd, fun _ ↦ rfl⟩
  · exact ⟨fun _ hs ↦ by simp [hs.2] at hb, fun _ ↦ rfl⟩
  · refine ⟨fun hn _ ↦ ?_, fun hnot ↦ ?_⟩
    · subst hn
      exact ⟨_, view_launch⟩
    · refine view_launch_ne fun hn ↦ hnot ⟨hn, ?_, by simpa using hb⟩
      simpa using hd

theorem tickJobs_view (l : List Job) (acc : SchedulerState × TickCall) :
    ((∃ job ∈ l, job.name = n ∧ acc.1.Starts job at') → ∃ k,
        ((l.foldl (tickJob at' calls) acc).1).view n = (acc.1.view n).launch k n at' (calls n)) ∧
      ((¬ ∃ job ∈ l, job.name = n ∧ acc.1.Starts job at') →
        ((l.foldl (tickJob at' calls) acc).1).view n = acc.1.view n) := by
  induction l generalizing acc with
  | nil => exact ⟨by simp, fun _ ↦ rfl⟩
  | cons j l ih =>
    obtain ⟨hstart, hkeep⟩ := ih (tickJob at' calls acc j)
    rw [List.foldl_cons]
    by_cases hj : j.name = n ∧ acc.1.Starts j at'
    · obtain ⟨k, hk⟩ := (tickJob_view calls acc).1 hj.1 hj.2
      refine ⟨fun _ ↦ ⟨k, (hkeep ?_).trans hk⟩, fun hnot ↦ absurd ⟨j, List.mem_cons_self, hj⟩ hnot⟩
      rintro ⟨job, -, hn, hs⟩
      have hbusy := busy_iff.1 hs.2
      rw [hn, hk] at hbusy
      cases hc : calls n <;> rw [hc] at hbusy <;> cases hbusy
    · have hview := (tickJob_view calls acc).2 hj
      have hiff : (∃ job ∈ l, job.name = n ∧ (tickJob at' calls acc j).1.Starts job at') ↔
          ∃ job ∈ j :: l, job.name = n ∧ acc.1.Starts job at' := by
        constructor
        · rintro ⟨job, hmem, hn, hs⟩
          exact ⟨job, List.mem_cons_of_mem j hmem, hn, (starts_congr (hn ▸ hview)).1 hs⟩
        · rintro ⟨job, hmem, hn, hs⟩
          rcases List.mem_cons.1 hmem with rfl | hmem
          · exact absurd ⟨hn, hs⟩ hj
          · exact ⟨job, hmem, hn, (starts_congr (hn ▸ hview)).2 hs⟩
      rw [hiff, hview] at hstart hkeep
      exact ⟨hstart, hkeep⟩

theorem tick_view (n : JobName) (calls : JobName → RunCall) :
    ((∃ job ∈ jobs, job.name = n ∧ s.Starts job at') → ∃ k,
        (s.tick jobs at' calls).view n = (s.view n).launch k n at' (calls n)) ∧
      ((¬ ∃ job ∈ jobs, job.name = n ∧ s.Starts job at') →
        (s.tick jobs at' calls).view n = s.view n) :=
  tickJobs_view jobs (s, ⟨[], [], []⟩)

theorem settle_runs (hv : (s.view r.name).Ok) (hr : s.runs[run]? = some r) (he : r.ended = none)
    (now : Instant) : (∀ n, r.name ≠ n → (s.runs.set run { r with ended := some now }).filter
        (fun r ↦ decide (r.name = n)) = s.runsOf n) ∧
      (s.runs.set run { r with ended := some now }).filter (fun x ↦ decide (x.name = r.name)) =
        (s.runsOf r.name).dropLast ++ [{ r with ended := some now }] := by
  obtain ⟨hi, rfl⟩ := List.getElem?_eq_some_iff.1 hr
  obtain ⟨l, m, hl, hm⟩ : ∃ l m, s.runs = l ++ s.runs[run] :: m ∧
      s.runs.set run { s.runs[run] with ended := some now } =
        l ++ { s.runs[run] with ended := some now } :: m :=
    ⟨s.runs.take run, s.runs.drop (run + 1), by simp, List.set_eq_take_append_cons_drop.trans (if_pos hi)⟩
  generalize s.runs[run] = r at *
  have hnone : m.filter (fun x ↦ decide (x.name = r.name)) = [] := by
    by_contra hne
    refine hv.past r ?_ he
    have hof : s.runsOf r.name = l.filter (fun x ↦ decide (x.name = r.name)) ++
        r :: m.filter (fun x ↦ decide (x.name = r.name)) := by
      rw [runsOf, hl, runsOf_append, List.filter_cons_of_pos (by simp)]
    change r ∈ (s.runsOf r.name).dropLast
    rw [hof, List.dropLast_append_of_ne_nil (List.cons_ne_nil _ _),
      List.dropLast_cons_of_ne_nil hne]
    simp
  constructor
  · intro n hn
    rw [hm, runsOf, hl, runsOf_append, runsOf_append, List.filter_cons_of_neg (by simpa using hn),
      List.filter_cons_of_neg (by simpa using hn)]
  · rw [hm, runsOf, hl, runsOf_append, runsOf_append, List.filter_cons_of_pos (by simp),
      List.filter_cons_of_pos (by simp), hnone, List.dropLast_concat]

theorem byName_isSome : (∃ job, byName jobs n = some job) ↔ ∃ job ∈ jobs, job.name = n := by
  rw [byName, ← Option.isSome_iff_exists, List.find?_isSome]
  simp

theorem byName_name (h : byName jobs n = some job) : job.name = n := by
  simpa using List.find?_some h

/-- What a step does to what is known of a job: it launches it, or lets its run settle, or leaves
it as it is. -/
theorem step_view {a : SchedulerAction} {t : SchedulerState} (hs : ∀ n, (s.view n).Ok)
    (h : s.step jobs a = some t) (n : JobName) :
    (s.StartsRun jobs n a → (s.view n).entry = none ∧
      ∃ k at', t.view n = (s.view n).launch k n at' (a.call n)) ∧
    (¬ s.StartsRun jobs n a → t.view n = s.view n ∨ ∃ r now, t.view n = (s.view n).settle r now) := by
  cases a with
  | start =>
    refine ⟨False.elim, fun _ ↦ .inl ?_⟩
    cases h
    split_ifs <;> rfl
  | wake now calls =>
    rw [step] at h
    split_ifs at h with ht
    cases h
    obtain ⟨hstart, hkeep⟩ := @tick_view jobs s now n calls
    refine ⟨fun hst ↦ ⟨?_, ?_⟩, fun hst ↦ .inl (hkeep fun hex ↦ hst ⟨ht, hex⟩)⟩
    · obtain ⟨-, job, -, rfl, hs⟩ := hst
      exact busy_iff.1 hs.2
    · obtain ⟨k, hk⟩ := hstart hst.2
      exact ⟨k, now, hk⟩
  | tick at' calls =>
    cases h
    obtain ⟨hstart, hkeep⟩ := @tick_view jobs s at' n calls
    refine ⟨fun hst ↦ ⟨?_, ?_⟩, fun hst ↦ .inl (hkeep hst)⟩
    · obtain ⟨job, -, rfl, hs⟩ := hst
      exact busy_iff.1 hs.2
    · obtain ⟨k, hk⟩ := hstart hst
      exact ⟨k, at', hk⟩
  | runNow name at' call =>
    cases h
    unfold runNow
    cases hj : byName jobs name with
    | none =>
      refine ⟨fun ⟨hn, hex, _⟩ ↦ ?_, fun _ ↦ .inl rfl⟩
      obtain ⟨job, hjob⟩ := byName_isSome.2 hex
      rw [← hn, hj] at hjob
      cases hjob
    | some job =>
      have hname := byName_name hj
      cases he : Keyed.lookup (·.1) name s.inFlight with
      | some already =>
        refine ⟨fun ⟨hn, _, hb⟩ ↦ ?_, fun _ ↦ .inl rfl⟩
        rw [← hn, busy, he] at hb
        cases hb
      | none =>
        dsimp only
        rw [hname]
        refine ⟨fun ⟨hn, _, hb⟩ ↦ ?_, fun hnot ↦ .inl ?_⟩
        · subst hn
          exact ⟨he, _, at', view_launch⟩
        · refine view_launch_ne fun hn ↦ hnot ⟨hn, ?_, ?_⟩
          · rw [← hn]
            exact byName_isSome.1 ⟨job, hj⟩
          · rw [← hn, busy, he]
            rfl
  | settle run outcome now =>
    refine ⟨False.elim, fun _ ↦ ?_⟩
    rw [step] at h
    split at h
    · rename_i r hr
      split_ifs at h with he
      cases h
      have hnone : r.ended = none := by simpa using he
      obtain ⟨hne, heq⟩ := settle_runs (hs r.name) hr hnone now
      by_cases hn : r.name = n
      · subst hn
        right
        refine ⟨r, now, ?_⟩
        simp only [view, runsOf, SchedulerState.settle, write, finish, JobView.settle,
          Keyed.lookup_upsert, Keyed.lookup_remove, if_true]
        rw [heq]
        rfl
      · left
        simp only [view, runsOf, SchedulerState.settle, write, finish, Keyed.lookup_upsert,
          Keyed.lookup_remove, if_neg hn]
        rw [hne n hn]
        rfl
    · cases h
  | stop =>
    cases h
    exact ⟨False.elim, fun _ ↦ .inl rfl⟩
  | stopResolve call =>
    refine ⟨False.elim, fun _ ↦ .inl ?_⟩
    rw [step] at h
    split at h
    · split_ifs at h
      cases h
      rfl
    · cases h

variable {a : SchedulerAction} {t : SchedulerState}

/-- What the scheduler knows of each job is in order, and only jobs have entries. -/
structure Inv (jobs : List Job) (s : SchedulerState) : Prop where
  ok : ∀ n, (s.view n).Ok
  named : ∀ n, (s.view n).entry ≠ none → ∃ job ∈ jobs, job.name = n

theorem initial_inv : Inv jobs initial where
  ok _ := ⟨by simp [view, runsOf, initial], by simp [view, runsOf, initial],
    fun _ ↦ ⟨rfl, rfl⟩, by simp [view, runsOf, initial]⟩
  named _ h := absurd rfl h

theorem starts_named (h : s.StartsRun jobs n a) : ∃ job ∈ jobs, job.name = n := by
  cases a with
  | wake at' calls =>
    obtain ⟨-, job, hj, hn, -⟩ := h
    exact ⟨job, hj, hn⟩
  | tick at' calls =>
    obtain ⟨job, hj, hn, -⟩ := h
    exact ⟨job, hj, hn⟩
  | runNow name at' call => exact h.2.1
  | start | settle | stop | stopResolve => exact h.elim

theorem step_inv (hs : Inv jobs s) (h : s.step jobs a = some t) : Inv jobs t where
  ok n := by
    obtain ⟨hstart, hkeep⟩ := step_view hs.ok h n
    by_cases hst : s.StartsRun jobs n a
    · obtain ⟨he, k, at', hv⟩ := hstart hst
      exact hv ▸ (hs.ok n).launch he
    · rcases hkeep hst with hv | ⟨r, now, hv⟩
      · exact hv ▸ hs.ok n
      · exact hv ▸ (hs.ok n).settle
  named n he := by
    obtain ⟨-, hkeep⟩ := step_view hs.ok h n
    by_cases hst : s.StartsRun jobs n a
    · exact starts_named hst
    · rcases hkeep hst with hv | ⟨r, now, hv⟩
      · exact hs.named n (hv ▸ he)
      · exact absurd (congrArg JobView.entry hv) he

/-- Every entry belongs to a run in flight. -/
def Fresh (s : SchedulerState) : Prop := ∀ n, (s.view n).Fresh

theorem step_fresh (hs : Inv jobs s) (hf : s.Fresh) (h : s.step jobs a = some t) :
    t.Fresh ↔ s.Promises jobs a := by
  constructor
  · intro ht n hst
    obtain ⟨he, k, at', hv⟩ := (step_view hs.ok h n).1 hst
    exact JobView.fresh_launch.1 (hv ▸ ht n)
  · intro hp n
    obtain ⟨hstart, hkeep⟩ := step_view hs.ok h n
    by_cases hst : s.StartsRun jobs n a
    · obtain ⟨he, k, at', hv⟩ := hstart hst
      exact hv ▸ JobView.fresh_launch.2 (hp n hst)
    · rcases hkeep hst with hv | ⟨r, now, hv⟩
      · exact hv ▸ hf n
      · exact hv ▸ JobView.fresh_settle

theorem Inv.single (hs : Inv jobs s) : s.Single := by
  intro n
  have hpast := (hs.ok n).past
  change ∀ r ∈ (s.runsOf n).dropLast, r.ended ≠ none at hpast
  rcases List.eq_nil_or_concat (s.runsOf n) with hnil | ⟨l, x, hl⟩
  · simp [hnil]
  · rw [hl, List.concat_eq_append] at hpast ⊢
    rw [List.dropLast_concat] at hpast
    rw [List.filter_append, List.filter_eq_nil_iff.2 (fun r hr ↦ by simpa using hpast r hr)]
    exact List.length_filter_le _ _

theorem due_of_rested (hs : Inv jobs s) (h : s.Rested job at') : s.due job at' := by
  rw [due, Option.all_eq_true]
  intro last hlast
  have hv : (s.view job.name).last = some last := hlast
  rcases List.eq_nil_or_concat (s.runsOf job.name) with hnil | ⟨l, x, hl⟩
  · rw [((hs.ok job.name).idle hnil).2] at hv
    cases hv
  · have hget : (s.runsOf job.name).getLast? = some x := by
      rw [hl, List.concat_eq_append, List.getLast?_concat]
    obtain ⟨e, he, hle⟩ := h x hget
    have hend := (hs.ok job.name).ends x e hget he
    rw [hv] at hend
    have hlast : last.2 = e := Option.some.inj hend
    rw [hlast]
    exact decide_eq_true (le_sub_iff_add_le'.2 hle)

/-- The jobs are eligible exactly where no entry is stale. -/
theorem eligible_iff (hs : Inv jobs s) : s.Eligible jobs ↔ s.Fresh := by
  constructor
  · intro h n he
    obtain ⟨job, hj, rfl⟩ := hs.named n he
    by_contra hstale
    push Not at hstale
    have hrested (at' : Instant) (hat : ∀ r e, (s.runsOf job.name).getLast? = some r →
        r.ended = some e → e + job.every ≤ at') : s.Rested job at' := by
      intro r hr
      obtain ⟨e, hre⟩ := Option.ne_none_iff_exists'.1 (hstale r hr)
      exact ⟨e, hre, hat r e hr hre⟩
    obtain ⟨at', hat⟩ : ∃ at' : Instant, ∀ r e, (s.runsOf job.name).getLast? = some r →
        r.ended = some e → e + job.every ≤ at' := by
      cases hl : (s.runsOf job.name).getLast? with
      | none => exact ⟨0, by simp⟩
      | some r =>
        refine ⟨r.ended.getD 0 + job.every, fun r' e hr he ↦ ?_⟩
        rw [← Option.some.inj hr] at he
        rw [he]
        exact le_rfl
    have hlen := h job hj at' (fun _ ↦ .promises) (hrested at' hat)
    have hkeep := (@tick_view jobs s at' job.name (fun _ ↦ .promises)).2 (by
      rintro ⟨j, -, hn, hst⟩
      exact he (hn ▸ busy_iff.1 hst.2))
    have hruns : (s.tick jobs at' fun _ ↦ .promises).runsOf job.name = s.runsOf job.name :=
      congrArg JobView.runs hkeep
    rw [hruns] at hlen
    exact lt_irrefl _ hlen
  · intro h job hj at' calls hr
    have hidle : (s.view job.name).entry = none := by
      by_contra he
      obtain ⟨r, hl, hn⟩ := h job.name he
      obtain ⟨e, he, -⟩ := hr r hl
      rw [hn] at he
      cases he
    obtain ⟨k, hk⟩ := (@tick_view jobs s at' job.name calls).1
      ⟨job, hj, rfl, due_of_rested hs hr, busy_iff.2 hidle⟩
    obtain ⟨e, hruns⟩ := @JobView.runs_launch (s.view job.name) k job.name at' (calls job.name)
    have hlen : ((s.tick jobs at' calls).runsOf job.name) = s.runsOf job.name ++ [⟨job.name, at', e⟩] :=
      (congrArg JobView.runs hk).trans hruns
    rw [hlen, List.length_append]
    exact Nat.lt_add_one _

/-- Every run in flight has its entry. -/
def Entered (s : SchedulerState) : Prop := ∀ i r, s.runs[i]? = some r → r.ended = none →
  Keyed.lookup (·.1) r.name s.inFlight = some (r.name, i)

/-- Every `stop` that waits does so for all runs in flight. -/
def Awaited (s : SchedulerState) : Prop := ∀ runs, StopCall.waiting runs ∈ s.stops →
  ∀ i r, s.runs[i]? = some r → r.ended = none → i ∈ runs

theorem launch_fields (s : SchedulerState) (name : JobName) (at' : Instant) (call : RunCall) :
    (s.launchReporting name at' call).stops = s.stops ∧
    (∃ e, (s.launchReporting name at' call).runs = s.runs ++ [⟨name, at', e⟩]) ∧
    ∀ n, Keyed.lookup (·.1) n (s.launchReporting name at' call).inFlight =
      if name = n then some (name, s.runs.length) else Keyed.lookup (·.1) n s.inFlight := by
  cases call with
  | promises =>
    exact ⟨rfl, ⟨none, rfl⟩, fun n ↦ by simp [launchReporting, invoke, Keyed.lookup_upsert]⟩
  | throws detail now =>
    refine ⟨rfl, ⟨some now, ?_⟩, fun n ↦ ?_⟩
    · simp [launchReporting, invoke, write, finish]
    · simp only [launchReporting, invoke, write, finish, Keyed.lookup_upsert, Keyed.lookup_remove]
      split_ifs <;> rfl

theorem Entered.launch (h : s.Entered) (hb : Keyed.lookup (·.1) name s.inFlight = none) :
    (s.launchReporting name at' call).Entered := by
  obtain ⟨-, ⟨e, hruns⟩, hentry⟩ := launch_fields s name at' call
  intro i r hr he
  rw [hruns, List.getElem?_append] at hr
  rw [hentry]
  split_ifs at hr with hi
  · have hold := h i r hr he
    rw [if_neg, hold]
    rintro rfl
    rw [hb] at hold
    cases hold
  · rw [List.getElem?_singleton] at hr
    split_ifs at hr with hz
    rw [← Option.some.inj hr, if_pos rfl, show i = s.runs.length by omega]

theorem Entered.tickJobs (l : List Job) {acc : SchedulerState × TickCall} (h : acc.1.Entered) :
    (l.foldl (tickJob at' calls) acc).1.Entered ∧
      (l.foldl (tickJob at' calls) acc).1.stops = acc.1.stops ∧
      ((∀ job ∈ l, ¬ acc.1.Starts job at') →
        (l.foldl (tickJob at' calls) acc).1.runs = acc.1.runs) := by
  induction l generalizing acc with
  | nil => exact ⟨h, rfl, fun _ ↦ rfl⟩
  | cons j l ih =>
    obtain ⟨u, c⟩ := acc
    rw [List.foldl_cons]
    by_cases hd : u.due j at'
    · cases hb : Keyed.lookup (·.1) j.name u.inFlight with
      | some p =>
        have hacc : tickJob at' calls (u, c) j =
            (u.write (.overrun j.name), { c with skipped := c.skipped ++ [j.name] }) := by
          simp [tickJob, hd, busy, hb]
        rw [hacc]
        obtain ⟨he, hst, hr⟩ := @ih (u.write (.overrun j.name), _) h
        exact ⟨he, hst, fun hn ↦ hr fun job hjob ↦ hn job (List.mem_cons_of_mem j hjob)⟩
      | none =>
        have hacc : (tickJob at' calls (u, c) j).1 = u.launchReporting j.name at' (calls j.name) := by
          simp [tickJob, hd, busy, hb]
        obtain ⟨he, hst, -⟩ := @ih (tickJob at' calls (u, c) j) (hacc ▸ Entered.launch h hb)
        refine ⟨he, hst.trans ?_, fun hn ↦ absurd ⟨hd, ?_⟩ (hn j List.mem_cons_self)⟩
        · rw [hacc]
          exact (launch_fields u j.name at' (calls j.name)).1
        · rw [busy, hb]
          rfl
    · have hacc : tickJob at' calls (u, c) j = (u, c) := by simp [tickJob, hd]
      rw [hacc]
      obtain ⟨he, hst, hr⟩ := @ih (u, c) h
      exact ⟨he, hst, fun hn ↦ hr fun job hjob ↦ hn job (List.mem_cons_of_mem j hjob)⟩

theorem settle_entered (h : s.Entered) (hr : s.runs[run]? = some r) (he : r.ended = none)
    (outcome : RunOutcome) (now : Instant) : (s.settle run r outcome now).Entered ∧
      ∀ (i : ℕ) (x : JobRun), (s.settle run r outcome now).runs[i]? = some x → x.ended = none →
        s.runs[i]? = some x := by
  have hold : ∀ (i : ℕ) (x : JobRun), (s.settle run r outcome now).runs[i]? = some x → x.ended = none →
      i ≠ run ∧ s.runs[i]? = some x := by
    intro i x hx hxe
    change (s.runs.set run { r with ended := some now })[i]? = some x at hx
    by_cases hi : i = run
    · subst hi
      have hlt := (List.getElem?_eq_some_iff.1 hr).1
      rw [List.getElem?_set_self hlt] at hx
      rw [← Option.some.inj hx] at hxe
      cases hxe
    · rw [List.getElem?_set_ne (Ne.symm hi)] at hx
      exact ⟨hi, hx⟩
  refine ⟨fun i x hx hxe ↦ ?_, fun i x hx hxe ↦ (hold i x hx hxe).2⟩
  obtain ⟨hi, hx⟩ := hold i x hx hxe
  have hentry := h i x hx hxe
  change Keyed.lookup (·.1) x.name (Keyed.remove (·.1) r.name s.inFlight) = _
  rw [Keyed.lookup_remove, if_neg, hentry]
  intro hn
  have hrun := h run r hr he
  rw [hn, hentry] at hrun
  exact hi (congrArg Prod.snd (Option.some.inj hrun))

theorem step_awaited (h : s.Entered ∧ s.Awaited) (hq : s.Quiets jobs a)
    (ht : s.step jobs a = some t) : t.Entered ∧ t.Awaited := by
  obtain ⟨hent, haw⟩ := h
  have htick (at' : Instant) (calls : JobName → RunCall)
      (hidle : (∃ runs, StopCall.waiting runs ∈ s.stops) →
        ∀ n, ¬ ∃ job ∈ jobs, job.name = n ∧ s.Starts job at') :
      (s.tick jobs at' calls).Entered ∧ (s.tick jobs at' calls).Awaited := by
    obtain ⟨he, hst, hr⟩ := @Entered.tickJobs at' calls jobs (s, ⟨[], [], []⟩) hent
    refine ⟨he, fun runs hmem ↦ ?_⟩
    have hmem : StopCall.waiting runs ∈ s.stops := hst ▸ hmem
    have hruns : (s.tick jobs at' calls).runs = s.runs :=
      hr fun job hjob hs ↦ hidle ⟨runs, hmem⟩ job.name ⟨job, hjob, rfl, hs⟩
    rw [hruns]
    exact haw runs hmem
  cases a with
  | start =>
    cases ht
    split_ifs
    · exact ⟨hent, haw⟩
    · exact ⟨hent, haw⟩
  | wake now calls =>
    rw [step] at ht
    split_ifs at ht with htimer
    cases ht
    exact htick now calls fun hw n hex ↦ hq hw n ⟨htimer, hex⟩
  | tick at' calls =>
    cases ht
    exact htick at' calls fun hw n hex ↦ hq hw n hex
  | runNow name at' call =>
    cases ht
    unfold runNow
    cases hj : byName jobs name with
    | none => exact ⟨hent, haw⟩
    | some job =>
      cases he : Keyed.lookup (·.1) name s.inFlight with
      | some already => exact ⟨hent, haw⟩
      | none =>
        dsimp only
        rw [byName_name hj]
        obtain ⟨hst, -, -⟩ := launch_fields s name at' call
        refine ⟨Entered.launch hent he, fun runs hmem ↦ ?_⟩
        refine absurd ⟨rfl, byName_isSome.1 ⟨job, hj⟩, ?_⟩ (hq ⟨runs, hst ▸ hmem⟩ name)
        rw [busy, he]
        rfl
  | settle run outcome now =>
    rw [step] at ht
    split at ht
    · rename_i r hr
      split_ifs at ht with he
      cases ht
      obtain ⟨hse, hold⟩ := settle_entered hent hr (by simpa using he) outcome now
      exact ⟨hse, fun runs hmem i x hx hxe ↦ haw runs hmem i x (hold i x hx hxe) hxe⟩
    · cases ht
  | stop =>
    cases ht
    refine ⟨hent, fun runs hmem i r hr he ↦ ?_⟩
    rcases List.mem_append.1 hmem with hmem | hmem
    · exact haw runs hmem i r hr he
    · cases List.mem_singleton.1 hmem
      exact List.mem_map.2 ⟨_, (Keyed.lookup_eq_some (hent i r hr he)).1, rfl⟩
  | stopResolve call =>
    rw [step] at ht
    split at ht
    · split_ifs at ht
      cases ht
      refine ⟨hent, fun runs hmem ↦ ?_⟩
      rcases List.mem_or_eq_of_mem_set hmem with hmem | hmem
      · exact haw runs hmem
      · cases hmem
    · cases ht

theorem Awaited.stopsClean (h : s.Awaited) : s.StopsClean jobs := by
  intro call t ht r hr he
  rw [step] at ht
  split at ht
  · rename_i runs hcall
    split_ifs at ht with hall
    obtain ⟨i, hi⟩ := List.mem_iff_getElem?.1 hr
    have hmem := h runs (List.mem_of_getElem? hcall) i r hi he
    have hended := List.all_eq_true.1 hall i hmem
    rw [ended, hi, Option.any_some, he] at hended
    cases hended
  · cases ht

/-- A step that is not taken starts nothing. -/
theorem promises_of_none (h : s.step jobs a = none) : s.Promises jobs a := by
  intro n hst
  cases a with
  | wake now calls =>
    rw [step, if_pos hst.1] at h
    cases h
  | tick | runNow => cases h
  | start | settle | stop | stopResolve => exact hst.elim

theorem initial_eligible : initial.Eligible jobs :=
  (eligible_iff initial_inv).2 fun _ h ↦ absurd rfl h

theorem initial_awaited : initial.Entered ∧ initial.Awaited := by
  constructor
  · intro i r hr
    cases hr
  · intro runs hmem
    cases hmem

end Views

end SchedulerState

open SchedulerState

/-- No job runs concurrently with itself. The jobs stay eligible in exactly the runs in which every
job that is started returns a promise. And while no run is started under a waiting `stop`, a `stop`
resolves only when no run is in flight. -/
theorem scheduler_survives (jobs : List Job) (actions : List SchedulerAction) :
    Throughout (step jobs) Single initial actions ∧
    (Throughout (step jobs) (fun s ↦ s.Eligible jobs) initial actions ↔
      Along (step jobs) (fun s a ↦ s.Promises jobs a) initial actions) ∧
    (Along (step jobs) (fun s a ↦ s.Quiets jobs a) initial actions →
      Throughout (step jobs) (fun s ↦ s.StopsClean jobs) initial actions) := by
  refine ⟨?_, ?_, fun h ↦ ?_⟩
  · exact (throughout_of_invariant (fun _ _ _ ↦ step_inv) initial_inv actions).mono
      fun _ ↦ Inv.single
  · refine throughout_iff_along (I := Inv jobs) (fun _ _ _ ↦ step_inv) (fun s a t hs hp ht ↦ ?_)
      (fun _ _ ↦ promises_of_none) initial_inv initial_eligible
    rw [eligible_iff (step_inv hs ht)]
    exact step_fresh hs ((eligible_iff hs).1 hp) ht
  · have hrun := throughout_of_along (P := fun s ↦ s.Entered ∧ s.Awaited)
      (fun s a t hs hq ht ↦ step_awaited hs hq ht)
      initial_awaited h
    exact hrun.mono fun s hs ↦ hs.2.stopsClean

def probe : Job := ⟨js "probe", 60000⟩

/-- The job throws before it returns a promise, and the tick at its interval does not start it
again. -/
theorem synchronous_throw_disables :
    ∃ s, run (step [probe]) initial [.tick 0 (fun _ ↦ .throws (js "boom") 0),
        .tick 60000 (fun _ ↦ .promises)] = some s ∧
      s.runs.map (fun r ↦ (r.name, r.startedAt, r.ended)) = [(js "probe", 0, some 0)] ∧
      s.ticks.map (fun call ↦ (call.started, call.skipped)) =
        [([js "probe"], []), ([], [js "probe"])] ∧
      ¬ s.Eligible [probe] := by
  refine ⟨_, rfl, rfl, rfl, fun h ↦ ?_⟩
  have hlen := h probe (.head _) 120000 (fun _ ↦ .promises) (fun r hr ↦ ?_)
  · exact absurd hlen (by decide)
  · cases hr
    exact ⟨0, rfl, by decide⟩

end Counted.Worker
