import Counted.Foundations.Collapse
import Counted.Foundations.Concurrency
import Counted.Foundations.Run
import Counted.Kernel.JsString

namespace Counted.Postgres

open Foundations

/-- A named, ordered group of statements. -/
structure MigrationStep where
  name : JsString
  statements : List JsString

/-- The names in the ledger, once there is one, and the statements in the order they took effect. -/
structure Database where
  ledger : Option (List JsString) := none
  effects : List JsString := []

/-- What a transaction has done and not committed. -/
structure Pending where
  creates : Bool := false
  effects : List JsString := []
  recorded : List JsString := []

structure MigrationOutcome where
  applied : List JsString := []
  skipped : List JsString := []

/-- The ledger's own transaction, or that of a step. -/
inductive MigrationTask
  | ledger
  | step (step : MigrationStep)

/-- Where a replica stands in a transaction. -/
inductive Point
  | locking
  | entered
  | running (left : List JsString)
  | committing

structure Applying where
  task : MigrationTask
  later : List MigrationTask
  point : Point := .locking
  pending : Pending := {}
  outcome : MigrationOutcome := {}

inductive Replica
  | applying (p : Applying)
  | succeeded (outcome : MigrationOutcome)
  | failed

/-- The start of the next transaction. -/
def Replica.toApply (outcome : MigrationOutcome) : List MigrationTask → Replica
  | [] => .succeeded outcome
  | task :: later => .applying { task, later, outcome }

def Database.names (db : Database) : List JsString := db.ledger.getD []

def Database.commit (db : Database) (t : Pending) : Database where
  ledger := if t.creates then some (db.names ++ t.recorded) else db.ledger.map (· ++ t.recorded)
  effects := db.effects ++ t.effects

namespace Applying

variable (p : Applying)

/-- A statement under the lock, as it sees what is committed. `none` where it cannot succeed: there
is no ledger, or the name is taken. -/
def execute (db : Database) : Option Applying :=
  match p.point, p.task with
  | .entered, .ledger =>
    some { p with point := .committing, pending := { p.pending with creates := true } }
  | .entered, .step m => db.ledger.map fun names ↦
    if m.name ∈ names then { p with point := .committing }
    else { p with point := .running m.statements }
  | .running (x :: left), _ =>
    some { p with
      point := .running left
      pending := { p.pending with effects := p.pending.effects ++ [x] } }
  | .running [], .step m => db.ledger.bind fun names ↦
    if m.name ∈ names then none
    else some { p with
      point := .committing
      pending := { p.pending with recorded := p.pending.recorded ++ [m.name] } }
  | .running [], .ledger | .locking, _ | .committing, _ => none

def outcomeAfter : MigrationOutcome :=
  match p.task with
  | .ledger => p.outcome
  | .step m =>
    if p.pending.recorded = [] then { p.outcome with skipped := p.outcome.skipped ++ [m.name] }
    else { p.outcome with applied := p.outcome.applied ++ [m.name] }

/-- Where a replica is once it knows that it has committed. -/
def next : Replica := .toApply p.outcomeAfter p.later

end Applying

abbrev Migrations := Guarded ℕ Replica Database

/-- What happens to a replica. A statement at any point may fail, and so may the answer to a
COMMIT that took effect. -/
inductive MigrationAction
  | boot (replica : ℕ)
  | proceed (replica : ℕ)
  | fail (replica : ℕ)
  | losesAnswer (replica : ℕ)

namespace Migrations

def initial : Migrations := ⟨{}, none, fun _ ↦ none⟩

def step (steps : List MigrationStep) (s : Migrations) : MigrationAction → Option Migrations
  | .boot r =>
    match s.process r with
    | some _ => none
    | none =>
      some (s.move r (.applying ⟨.ledger, steps.map .step, .locking, {}, {}⟩) s.shared s.holder)
  | .proceed r =>
    match s.process r with
    | some (.applying p) =>
      match p.point with
      | .locking =>
        if s.holder = none then
          some (s.move r (.applying { p with point := .entered }) s.shared (some r))
        else none
      | .committing => some (s.move r p.next (s.shared.commit p.pending) none)
      | .entered | .running _ =>
        (p.execute s.shared).map fun q ↦ s.move r (.applying q) s.shared s.holder
    | _ => none
  | .fail r =>
    match s.process r with
    | some (.applying _) =>
      some (s.move r .failed s.shared (if s.holder = some r then none else s.holder))
    | _ => none
  | .losesAnswer r =>
    match s.process r with
    | some (.applying ⟨_, _, .committing, pending, _⟩) =>
      some (s.move r .failed (s.shared.commit pending) none)
    | _ => none

end Migrations

/-- The steps by their names: of those that share one, the first. -/
def firsts (steps : List MigrationStep) : List MigrationStep :=
  (collapse (fun m ↦ some m.name) [] steps).unique

theorem firsts_append (l m : List MigrationStep) : firsts (l ++ m) =
    firsts l ++ (collapse (fun m ↦ some m.name) ((firsts l).map (·.name)) m).unique := by
  rw [firsts, collapse_append, List.nil_append, List.filterMap_eq_map']
  rfl

theorem mem_firsts_names {steps : List MigrationStep} {name : JsString} :
    name ∈ (firsts steps).map (·.name) ↔ name ∈ steps.map (·.name) := by
  constructor
  · intro h
    exact List.Sublist.subset ((collapse_sublist [] steps).map _) h
  · intro h
    obtain ⟨m, hm, rfl⟩ := List.mem_map.1 h
    rcases collapse_covers (f := fun m : MigrationStep ↦ some m.name) [] steps m hm with
      h | ⟨k, hk, h | h⟩
    · exact List.mem_map_of_mem h
    · cases h
    · cases hk
      rwa [List.filterMap_eq_map'] at h

/-- A step whose name has been met adds nothing. -/
theorem firsts_append_met {l m : List MigrationStep}
    (h : ∀ n ∈ m, n.name ∈ (firsts l).map (·.name)) : firsts (l ++ m) = firsts l := by
  rw [firsts_append, collapse_all_seen (fun n hn ↦ ⟨_, h n hn, rfl⟩), List.append_nil]

theorem firsts_concat {l : List MigrationStep} {m : MigrationStep}
    (h : m.name ∉ (firsts l).map (·.name)) : firsts (l ++ [m]) = firsts l ++ [m] := by
  rw [firsts_append, collapse_fresh (f := fun m : MigrationStep ↦ some m.name) rfl h]
  rfl

theorem firsts_prefix {l m : List MigrationStep} (h : l <+: m) : firsts l <+: firsts m := by
  obtain ⟨r, rfl⟩ := h
  rw [firsts_append]
  exact List.prefix_append _ _

theorem firsts_of_nodup {steps : List MigrationStep} (h : (steps.map (·.name)).Nodup) :
    firsts steps = steps := by
  induction steps using List.reverseRecOn with
  | nil => rfl
  | append_singleton l m ih =>
    rw [List.map_append, List.map_singleton, List.nodup_append] at h
    rw [firsts_concat, ih h.1]
    intro hm
    exact h.2.2 _ (mem_firsts_names.1 hm) _ (List.mem_singleton.2 rfl) rfl

theorem nodup_firsts (steps : List MigrationStep) : ((firsts steps).map (·.name)).Nodup := by
  have h := (collapse_keys (f := fun m : MigrationStep ↦ some m.name) [] steps).1
  rwa [List.filterMap_eq_map'] at h

namespace Migrations

variable {steps : List MigrationStep} {db db' : Database}

/-- The ledger names the first steps of the list, and their statements have taken effect, in their
order. -/
def Recorded (steps : List MigrationStep) (db : Database) : Prop :=
  ∃ done, done <+: steps ∧ db.names = (firsts done).map (·.name) ∧
    db.effects = (firsts done).flatMap (·.statements)

def Holds (l : List MigrationStep) (db : Database) : Prop := ∀ m ∈ l, m.name ∈ db.names

/-- The task at hand and those to come are the rest of the list, what precedes it recorded. -/
inductive Queued (steps : List MigrationStep) (db : Database) :
    MigrationTask → List MigrationTask → Prop
  | ledger : Queued steps db .ledger (steps.map .step)
  | step (before : List MigrationStep) (m : MigrationStep) (after : List MigrationStep) :
    steps = before ++ m :: after → db.ledger.isSome = true → Holds before db →
      Queued steps db (.step m) (after.map .step)

inductive Stands (steps : List MigrationStep) (db : Database) : Replica → Prop
  | locking {task later outcome} : Queued steps db task later →
    Stands steps db (.applying ⟨task, later, .locking, {}, outcome⟩)
  | entered {task later outcome} : Queued steps db task later →
    Stands steps db (.applying ⟨task, later, .entered, {}, outcome⟩)
  | creating {later outcome} : Queued steps db .ledger later →
    Stands steps db (.applying ⟨.ledger, later, .committing, ⟨true, [], []⟩, outcome⟩)
  | skipping {m later outcome} : Queued steps db (.step m) later → m.name ∈ db.names →
    Stands steps db (.applying ⟨.step m, later, .committing, {}, outcome⟩)
  | running {m later ran left outcome} : Queued steps db (.step m) later → m.name ∉ db.names →
    ran ++ left = m.statements →
      Stands steps db (.applying ⟨.step m, later, .running left, ⟨false, ran, []⟩, outcome⟩)
  | recording {m later outcome} : Queued steps db (.step m) later → m.name ∉ db.names →
    Stands steps db (.applying
      ⟨.step m, later, .committing, ⟨false, m.statements, [m.name]⟩, outcome⟩)
  | succeeded {outcome} : Holds steps db → Stands steps db (.succeeded outcome)
  | failed : Stands steps db .failed

/-- Past the lock. -/
def Past : Replica → Prop
  | .applying p => p.point ≠ .locking
  | .succeeded _ | .failed => False

/-- What a commit does to the ledger, as far as the others rely on it. -/
structure Grows (db db' : Database) : Prop where
  ledger : db.ledger.isSome = true → db'.ledger.isSome = true
  names : db.names ⊆ db'.names

theorem grows_commit (t : Pending) : Grows db (db.commit t) := by
  obtain ⟨ledger, effects⟩ := db
  obtain ⟨creates, ran, recorded⟩ := t
  constructor
  · intro h
    cases creates <;> simp_all [Database.commit]
  · intro name hn
    cases creates <;> cases ledger <;> simp_all [Database.commit, Database.names]

theorem Holds.grows {l : List MigrationStep} (h : Holds l db) (hg : Grows db db') : Holds l db' :=
  fun m hm ↦ hg.names (h m hm)

theorem Queued.grows {task : MigrationTask} {later : List MigrationTask}
    (h : Queued steps db task later) (hg : Grows db db') : Queued steps db' task later := by
  cases h with
  | ledger => exact .ledger
  | step before m after hs hl hb => exact .step before m after hs (hg.ledger hl) (hb.grows hg)

theorem Queued.of_step {m : MigrationStep} {later : List MigrationTask}
    (h : Queued steps db (.step m) later) : ∃ names, db.ledger = some names ∧
      ∃ before after, steps = before ++ m :: after ∧ Holds before db := by
  cases h with
  | step before m after hs hl hb =>
    obtain ⟨names, hnames⟩ := Option.isSome_iff_exists.1 hl
    exact ⟨names, hnames, before, after, hs, hb⟩

theorem Stands.grows {r : Replica} (h : Stands steps db r) (hp : ¬ Past r) (hg : Grows db db') :
    Stands steps db' r := by
  cases h with
  | locking h => exact .locking (h.grows hg)
  | succeeded h => exact .succeeded (h.grows hg)
  | failed => exact .failed
  | entered | creating | skipping | running | recording => exact absurd Point.noConfusion hp

theorem stands_toApply {before after : List MigrationStep} (hs : steps = before ++ after)
    (hl : db.ledger.isSome = true) (hb : Holds before db) (outcome : MigrationOutcome) :
    Stands steps db (.toApply outcome (after.map .step)) := by
  cases after with
  | nil =>
    rw [List.append_nil] at hs
    exact .succeeded (hs ▸ hb)
  | cons m after => exact .locking (.step before m after hs hl hb)

theorem stands_next {task : MigrationTask} {later : List MigrationTask} {pending : Pending}
    {outcome : MigrationOutcome} (h : Queued steps db task later) (hg : Grows db db')
    (hl : db'.ledger.isSome = true) (hm : ∀ m, task = .step m → m.name ∈ db'.names) :
    Stands steps db' (Applying.next ⟨task, later, .committing, pending, outcome⟩) := by
  cases h with
  | ledger => exact @stands_toApply _ _ [] _ rfl hl (fun m hm ↦ absurd hm List.not_mem_nil) _
  | step before m after hs hl' hb =>
    apply @stands_toApply _ _ (before ++ [m]) _ (by rw [hs, List.append_cons]) hl
    intro n hn
    rcases List.mem_append.1 hn with hn | hn
    · exact hb.grows hg n hn
    · rw [List.mem_singleton.1 hn]
      exact hm m rfl

theorem recorded_same (h : Recorded steps db) (hn : db'.names = db.names)
    (he : db'.effects = db.effects) : Recorded steps db' := by
  obtain ⟨done, hd, hnames, heffects⟩ := h
  exact ⟨done, hd, hn.trans hnames, he.trans heffects⟩

/-- The next step of the list is committed: what had been recorded were the steps before it. -/
theorem recorded_step (h : Recorded steps db) {before after : List MigrationStep} {m : MigrationStep}
    (hs : steps = before ++ m :: after) (hb : Holds before db) (hm : m.name ∉ db.names)
    (hn : db'.names = db.names ++ [m.name]) (he : db'.effects = db.effects ++ m.statements) :
    Recorded steps db' := by
  obtain ⟨done, hd, hnames, heffects⟩ := h
  have hmem (n : JsString) : n ∈ db.names ↔ n ∈ done.map (·.name) := by
    rw [hnames, mem_firsts_names]
  have hpre : done <+: before := by
    rcases List.prefix_or_prefix_of_prefix hd ⟨m :: after, hs.symm⟩ with hp | ⟨l, rfl⟩
    · exact hp
    · cases l with
      | nil => rw [List.append_nil]
      | cons n l =>
        obtain ⟨r, hr⟩ := hd
        rw [hs, List.append_assoc, List.append_cancel_left_eq, List.cons_append,
          List.cons.injEq] at hr
        obtain ⟨rfl, -⟩ := hr
        exact absurd ((hmem _).2 (List.mem_map_of_mem (List.mem_append_right _ List.mem_cons_self))) hm
  obtain ⟨extra, rfl⟩ := hpre
  have hextra : ∀ n ∈ extra, n.name ∈ (firsts done).map (·.name) := fun n hn ↦
    hnames ▸ hb n (List.mem_append_right _ hn)
  have hfirsts : firsts (done ++ extra ++ [m]) = firsts done ++ [m] := by
    have he := firsts_append_met hextra
    rw [firsts_concat (he.symm ▸ hnames ▸ hm), he]
  refine ⟨done ++ extra ++ [m], ⟨after, ?_⟩, ?_, ?_⟩
  · rw [hs, List.append_assoc, List.singleton_append]
  · rw [hn, hnames, hfirsts, List.map_append, List.map_singleton]
  · rw [he, heffects, hfirsts, List.flatMap_append, List.flatMap_singleton]

/-- Whatever a replica commits is in order, and so is what it does next. -/
theorem stands_commit {task : MigrationTask} {later : List MigrationTask} {pending : Pending}
    {outcome : MigrationOutcome} (hr : Recorded steps db)
    (h : Stands steps db (.applying ⟨task, later, .committing, pending, outcome⟩)) :
    Recorded steps (db.commit pending) ∧
      Stands steps (db.commit pending) (Applying.next ⟨task, later, .committing, pending, outcome⟩) := by
  have hg : Grows db (db.commit pending) := grows_commit pending
  cases h with
  | creating hq =>
    have hn : (db.commit ⟨true, [], []⟩).names = db.names := List.append_nil _
    exact ⟨recorded_same hr hn (List.append_nil _), stands_next hq hg rfl (fun m hm ↦ by cases hm)⟩
  | @skipping m later outcome hq hm =>
    obtain ⟨names, hnames, -⟩ := hq.of_step
    have hn : (db.commit {}).names = db.names := by
      simp [Database.commit, Database.names, hnames]
    have hl : db.ledger.isSome = true := hnames ▸ rfl
    refine ⟨recorded_same hr hn (List.append_nil _), stands_next hq hg (hg.ledger hl) ?_⟩
    intro n hn'
    cases hn'
    exact hg.names hm
  | @recording m later outcome hq hm =>
    obtain ⟨names, hnames, before, after, hs, hb⟩ := hq.of_step
    have hn : (db.commit ⟨false, m.statements, [m.name]⟩).names = db.names ++ [m.name] := by
      simp [Database.commit, Database.names, hnames]
    have hl : db.ledger.isSome = true := hnames ▸ rfl
    refine ⟨recorded_step hr hs hb hm hn rfl, stands_next hq hg (hg.ledger hl) ?_⟩
    intro n hn'
    cases hn'
    exact hn ▸ List.mem_append_right _ (List.mem_singleton.2 rfl)

theorem stands_execute {p q : Applying} (h : Stands steps db (.applying p))
    (he : p.execute db = some q) : Stands steps db (.applying q) ∧ p.point ≠ .locking := by
  cases h with
  | locking hq => cases he
  | entered hq =>
    refine ⟨?_, Point.noConfusion⟩
    cases hq with
    | ledger =>
      cases he
      exact .creating .ledger
    | step before m after hs hl hb =>
      obtain ⟨names, hnames, rfl⟩ := Option.map_eq_some_iff.1 he
      have hmem : m.name ∈ names ↔ m.name ∈ db.names := by rw [Database.names, hnames, Option.getD_some]
      split_ifs with hm
      · exact .skipping (.step before m after hs hl hb) (hmem.1 hm)
      · exact .running (.step before m after hs hl hb) (fun h ↦ hm (hmem.2 h)) rfl
  | creating hq => cases he
  | skipping hq hm => cases he
  | @running m later ran left outcome hq hm hs =>
    refine ⟨?_, Point.noConfusion⟩
    cases left with
    | nil =>
      obtain ⟨names, hnames, he⟩ := Option.bind_eq_some_iff.1 he
      split_ifs at he
      cases he
      rw [List.append_nil] at hs
      exact hs ▸ .recording hq hm
    | cons x left =>
      cases he
      exact .running hq hm (by rw [← hs, List.append_assoc, List.singleton_append])
  | recording hq hm => cases he

def Inv (steps : List MigrationStep) (s : Migrations) : Prop :=
  Guarded.Inv Past (Recorded steps) (Stands steps) s

theorem inv_initial (steps : List MigrationStep) : Inv steps initial := by
  refine ⟨fun i p h ↦ ?_, ⟨[], List.nil_prefix, rfl, rfl⟩, fun i p h ↦ ?_⟩ <;> cases h

theorem not_past_toApply (outcome : MigrationOutcome) (tasks : List MigrationTask) :
    ¬ Past (.toApply outcome tasks) := by
  cases tasks with
  | nil => exact id
  | cons task later => exact fun h ↦ h rfl

theorem inv_step {s t : Migrations} {a : MigrationAction} (hs : Inv steps s)
    (h : step steps s a = some t) : Inv steps t := by
  cases a with
  | boot r =>
    cases hp : s.process r with
    | some p => simp only [step, hp] at h; cases h
    | none =>
      simp only [step, hp] at h
      obtain rfl := Option.some.inj h
      exact Guarded.Inv.keep hs (fun hh ↦ absurd rfl hh) (.locking .ledger)
  | proceed r =>
    cases hp : s.process r with
    | none => simp only [step, hp] at h; cases h
    | some p =>
      cases p with
      | succeeded outcome => simp only [step, hp] at h; cases h
      | failed => simp only [step, hp] at h; cases h
      | applying p =>
        obtain ⟨task, later, point, pending, outcome⟩ := p
        have hst := hs.process r _ hp
        simp only [step, hp] at h
        cases point with
        | locking =>
          simp only at h
          split_ifs at h with hf
          obtain rfl := Option.some.inj h
          cases hst with
          | locking hq => exact Guarded.Inv.acquire hs hf (.entered hq)
        | committing =>
          obtain rfl := Option.some.inj h
          obtain ⟨hr, hn⟩ := stands_commit hs.shared hst
          exact Guarded.Inv.release hs (hs.held r _ hp Point.noConfusion) (not_past_toApply _ _) hr hn
            (fun q hq hst ↦ hst.grows hq (grows_commit pending))
        | entered | running =>
          obtain ⟨q, hq, rfl⟩ := Option.map_eq_some_iff.1 h
          exact Guarded.Inv.keep hs (fun _ ↦ hs.held r _ hp Point.noConfusion) (stands_execute hst hq).1
  | fail r =>
    cases hp : s.process r with
    | none => simp only [step, hp] at h; cases h
    | some p =>
      cases p with
      | succeeded outcome => simp only [step, hp] at h; cases h
      | failed => simp only [step, hp] at h; cases h
      | applying p =>
        simp only [step, hp] at h
        obtain rfl := Option.some.inj h
        exact Guarded.Inv.leave hs id .failed
  | losesAnswer r =>
    cases hp : s.process r with
    | none => simp only [step, hp] at h; cases h
    | some p =>
      cases p with
      | succeeded outcome => simp only [step, hp] at h; cases h
      | failed => simp only [step, hp] at h; cases h
      | applying p =>
        obtain ⟨task, later, point, pending, outcome⟩ := p
        have hst := hs.process r _ hp
        simp only [step, hp] at h
        cases point with
        | locking | entered | running => cases h
        | committing =>
          obtain rfl := Option.some.inj h
          exact Guarded.Inv.release hs (hs.held r _ hp Point.noConfusion) id
            (stands_commit hs.shared hst).1 .failed
            (fun q hq hst ↦ hst.grows hq (grows_commit pending))

/-- The ledger names, and the database has taken, the first of the steps, each of them once; and all
of them where a replica has reported success. -/
def Sound (steps : List MigrationStep) (s : Migrations) : Prop :=
  ∃ done, done <+: firsts steps ∧ (done.map (·.name)).Nodup ∧
    s.shared.names = done.map (·.name) ∧ s.shared.effects = done.flatMap (·.statements) ∧
      ∀ r outcome, s.process r = some (.succeeded outcome) → done = firsts steps

theorem Inv.sound {s : Migrations} (h : Inv steps s) : Sound steps s := by
  obtain ⟨done, hd, hn, he⟩ := h.shared
  have hpre := firsts_prefix hd
  refine ⟨firsts done, hpre, nodup_firsts done, hn, he, fun r outcome hr ↦ ?_⟩
  cases h.process r _ hr with
  | succeeded hall =>
    -- a step left over would have a name that the ledger has, and that one of the done steps has
    obtain ⟨rest, hrest⟩ := hpre
    cases rest with
    | nil => rw [← hrest, List.append_nil]
    | cons m rest =>
      have hm : m ∈ steps := (collapse_sublist [] steps).subset (by
        change m ∈ firsts steps
        rw [← hrest]
        exact List.mem_append_right _ List.mem_cons_self)
      have hnd := nodup_firsts steps
      rw [← hrest, List.map_append, List.nodup_append] at hnd
      exact absurd rfl (hnd.2.2 _ (hn ▸ hall m hm) _ (List.mem_map_of_mem List.mem_cons_self))

/-- In every state that any number of replicas pass through, whatever fails. -/
theorem ledger_sound (steps : List MigrationStep) (actions : List MigrationAction) :
    Throughout (step steps) (Sound steps) initial actions ∧
      ((steps.map (·.name)).Nodup → firsts steps = steps) := by
  refine ⟨?_, firsts_of_nodup⟩
  have h : Throughout (step steps) (Inv steps) initial actions :=
    throughout_of_invariant (fun _ _ _ ↦ inv_step) (inv_initial steps) actions
  exact h.mono fun s hs ↦ hs.sound

/-- Two steps of one name. -/
def twoSteps : List MigrationStep :=
  [⟨js "0001_raced", [js "CREATE TABLE raced (id int)"]⟩,
    ⟨js "0001_raced", [js "CREATE INDEX raced_id ON raced (id)"]⟩]

/-- The second is skipped, its statement never run, and the replica reports success. -/
theorem same_name_skipped :
    (run (step twoSteps) initial (.boot 0 :: List.replicate 11 (.proceed 0))).map
      (fun s ↦ (s.process 0, s.shared.effects)) =
        some (some (.succeeded ⟨[js "0001_raced"], [js "0001_raced"]⟩),
          [js "CREATE TABLE raced (id int)"]) := rfl

end Migrations

end Counted.Postgres
