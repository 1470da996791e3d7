import Counted.Dashboarding.Monitor
import Counted.Foundations.Run

namespace Counted.Dashboarding

open Foundations Ingestion

/-- What is done to the aggregate, one after the other. -/
inductive MonitorAction (A : Type)
  | evaluate (observed : JsNumber)
  | measurementUnavailable (detail : JsString)
  | rename (name : JsString)
  | retarget (analysis : A) (threshold : Threshold)
  | reconfigure (settings : MonitorSettings)
  | enable
  | disable

/-- An event with the monitor that emitted it, as it was before. -/
structure Emission (A : Type) where
  before : Monitor A
  event : MonitorEvent

/-- A monitor with all it has emitted, the latest first, and the time of the last action. -/
structure AlertState (A : Type) where
  monitor : Monitor A
  history : List (Emission A)
  clock : Instant

variable {A : Type}

/-- A command that is refused changes nothing. -/
def MonitorAction.applied (m : Monitor A) (at' : Instant) : MonitorAction A → MonitorApplied A
  | .evaluate observed => m.evaluate observed at'
  | .measurementUnavailable detail => ⟨m.measurementUnavailable detail at', []⟩
  | .rename name => (m.rename name at').toOption.getD ⟨m, []⟩
  | .retarget analysis threshold => (m.retarget analysis threshold at').toOption.getD ⟨m, []⟩
  | .reconfigure settings => (m.reconfigure settings at').toOption.getD ⟨m, []⟩
  | .enable => (m.enable at').toOption.getD ⟨m, []⟩
  | .disable => (m.disable at').toOption.getD ⟨m, []⟩

/-- An action at a time that is not before the last one's. -/
def AlertState.step (s : AlertState A) (a : MonitorAction A × Instant) : Option (AlertState A) :=
  if a.2 < s.clock then none
  else
    let applied := a.1.applied s.monitor a.2
    some {
      monitor := applied.monitor
      history := applied.events.reverse.map (Emission.mk s.monitor) ++ s.history
      clock := a.2 }

/-- When the breach that stands was announced: the fires since the last recovery, retarget or
disabling. -/
def breach : List (Emission A) → List Instant
  | [] => []
  | e :: history =>
    match e.event with
    | .fired _ _ _ _ _ at' => at' :: breach history
    | .recovered .. | .retargeted .. | .disabled .. => []
    | .created .. | .renamed .. | .reconfigured .. | .enabled .. => breach history

/-- What holds of an event when `history` is all that came before. -/
def Lawful (history : List (Emission A)) (e : Emission A) : Prop :=
  match e.event with
  | .fired _ _ _ _ entering at' =>
    e.before.enabled = true ∧ (entering = true → e.before.state = .ok ∧ breach history = []) ∧
      ∀ t ∈ breach history, e.before.cooldown ≤ at' - t
  | .recovered .. => e.before.enabled = true ∧ breach history ≠ []
  | .created .. | .renamed .. | .retargeted .. | .reconfigured .. | .enabled .. | .disabled .. =>
    True

/-- An event that neither announces nor ends a breach. -/
def MonitorEvent.Neutral : MonitorEvent → Prop
  | .created .. | .renamed .. | .reconfigured .. | .enabled .. => True
  | .fired .. | .recovered .. | .retargeted .. | .disabled .. => False

/-- An event that ends a breach without a recovery. -/
def MonitorEvent.Reset : MonitorEvent → Prop
  | .retargeted .. | .disabled .. => True
  | .created .. | .renamed .. | .reconfigured .. | .enabled .. | .fired .. | .recovered .. => False

/-- Everything an action can do. -/
inductive Applied (m : Monitor A) (at' : Instant) : MonitorApplied A → Prop
  | fire (r : Monitor A) (observed : JsNumber) (entering : Bool) :
    m.enabled = true → (m.state = .breaching → m.coolingDown at' = false) →
    (entering = true → m.state = .ok) →
    r.state = .breaching → r.enabled = true → r.lastNotifiedAt = some at' →
    Applied m at' ⟨r, [.fired m.id m.project observed m.threshold entering at']⟩
  | recover (r : Monitor A) (observed : JsNumber) : m.enabled = true → m.state = .breaching →
    r.state = .ok → Applied m at' ⟨r, [.recovered m.id m.project observed at']⟩
  | reset (r : Monitor A) (e : MonitorEvent) : e.Reset → r.state = .ok → Applied m at' ⟨r, [e]⟩
  | quiet (r : Monitor A) (events : List MonitorEvent) : (∀ e ∈ events, e.Neutral) →
    r.state = m.state →
    (m.enabled = true → r.enabled = true ∧ r.lastNotifiedAt = m.lastNotifiedAt) →
    Applied m at' ⟨r, events⟩

theorem Applied.unchanged (m : Monitor A) (at' : Instant) : Applied m at' ⟨m, []⟩ :=
  .quiet m [] (by simp) rfl (fun h ↦ ⟨h, rfl⟩)

theorem evaluate_applied (m : Monitor A) (observed : JsNumber) (at' : Instant) :
    Applied m at' (m.evaluate observed at') := by
  have hquiet (reason : SilentReason) :
      Applied m at' (m.apply at' (.silent reason observed)) :=
    .quiet _ [] (by simp) rfl (fun h ↦ ⟨h, rfl⟩)
  rw [Monitor.evaluate, Monitor.decide]
  split_ifs with he hb hs hs hc
  · exact hquiet _
  · rw [Bool.not_eq_true', Bool.not_eq_false] at he
    exact .recover _ observed he hs rfl
  · exact hquiet _
  · rw [Bool.not_eq_true', Bool.not_eq_false] at he
    refine .fire _ observed true he (fun h ↦ ?_) (fun _ ↦ hs) rfl he rfl
    rw [hs] at h
    cases h
  · exact hquiet _
  · rw [Bool.not_eq_true', Bool.not_eq_false] at he
    exact .fire _ observed false he (fun _ ↦ Bool.not_eq_true _ ▸ hc) (by rintro ⟨⟩) rfl he rfl

theorem action_applied (a : MonitorAction A) (m : Monitor A) (at' : Instant) :
    Applied m at' (a.applied m at') := by
  cases a with
  | evaluate observed => exact evaluate_applied m observed at'
  | measurementUnavailable detail =>
    exact .quiet _ [] (by simp) rfl (fun h ↦ ⟨h, rfl⟩)
  | rename name =>
    rw [MonitorAction.applied, Monitor.rename]
    split_ifs
    · exact .unchanged m at'
    · exact .unchanged m at'
    · exact .quiet _ _ (by simp [MonitorEvent.Neutral]) rfl (fun h ↦ ⟨h, rfl⟩)
  | retarget analysis threshold => exact .reset _ _ trivial rfl
  | reconfigure settings =>
    rw [MonitorAction.applied, Monitor.reconfigure]
    split_ifs
    · exact .unchanged m at'
    · exact .quiet _ _ (by simp [MonitorEvent.Neutral]) rfl (fun h ↦ ⟨h, rfl⟩)
  | enable =>
    rw [MonitorAction.applied, Monitor.enable]
    split_ifs with he
    · exact .unchanged m at'
    · exact .quiet _ _ (by simp [MonitorEvent.Neutral]) rfl (fun h ↦ absurd h he)
  | disable =>
    rw [MonitorAction.applied, Monitor.disable]
    split_ifs
    · exact .unchanged m at'
    · exact .reset _ _ trivial rfl

theorem breach_neutral {events : List MonitorEvent} (h : ∀ e ∈ events, e.Neutral) (m : Monitor A)
    (history : List (Emission A)) :
    breach (events.map (Emission.mk m) ++ history) = breach history := by
  induction events with
  | nil => rfl
  | cons e events ih =>
    rw [List.forall_mem_cons] at h
    rw [List.map_cons, List.cons_append, ← ih h.2]
    cases e with
    | created | renamed | reconfigured | enabled => rfl
    | fired | recovered | retargeted | disabled => exact absurd h.1 (by simp [MonitorEvent.Neutral])

theorem breach_reset {e : MonitorEvent} (h : e.Reset) (m : Monitor A)
    (history : List (Emission A)) : breach (⟨m, e⟩ :: history) = [] := by
  cases e with
  | retargeted | disabled => rfl
  | created | renamed | reconfigured | enabled | fired | recovered =>
    exact absurd h (by simp [MonitorEvent.Reset])

/-- What a step leaves true. -/
structure AlertInv (s : AlertState A) : Prop where
  lawful : ∀ e history, (e :: history) <:+ s.history → Lawful history e
  breaching : s.monitor.state = .breaching → s.monitor.enabled = true ∧
    ∃ t rest, s.monitor.lastNotifiedAt = some t ∧ breach s.history = t :: rest
  ok : s.monitor.state = .ok → breach s.history = []
  ordered : (breach s.history).Pairwise (fun t u ↦ u ≤ t)
  past : ∀ t ∈ breach s.history, t ≤ s.clock

theorem lawful_neutral {events : List MonitorEvent} (h : ∀ e ∈ events, e.Neutral) (m : Monitor A)
    {history rest : List (Emission A)} {e : Emission A}
    (hl : ∀ e rest, (e :: rest) <:+ history → Lawful rest e)
    (he : (e :: rest) <:+ events.map (Emission.mk m) ++ history) : Lawful rest e := by
  induction events with
  | nil => exact hl e rest he
  | cons x events ih =>
    rw [List.forall_mem_cons] at h
    rw [List.map_cons, List.cons_append, List.suffix_cons_iff] at he
    rcases he with he | he
    · obtain ⟨rfl, rfl⟩ := List.cons.inj he
      cases x with
      | created | renamed | reconfigured | enabled => trivial
      | fired | recovered | retargeted | disabled =>
        exact absurd h.1 (by simp [MonitorEvent.Neutral])
    · exact ih h.2 he

theorem lawful_cons {history rest : List (Emission A)} {e x : Emission A}
    (hl : ∀ e rest, (e :: rest) <:+ history → Lawful rest e) (hx : Lawful history x)
    (he : (e :: rest) <:+ x :: history) : Lawful rest e := by
  rcases List.suffix_cons_iff.1 he with he | he
  · obtain ⟨rfl, rfl⟩ := List.cons.inj he
    exact hx
  · exact hl e rest he

/-- A fire while breaching is a cooldown after each fire of the breach. -/
theorem fires_apart {s : AlertState A} (h : AlertInv s) {at' : Instant}
    (hc : s.monitor.state = .breaching → s.monitor.coolingDown at' = false) :
    ∀ t ∈ breach s.history, s.monitor.cooldown ≤ at' - t := by
  intro t ht
  cases hs : s.monitor.state with
  | ok =>
    rw [h.ok hs] at ht
    cases ht
  | breaching =>
    obtain ⟨-, last, rest, hn, hb⟩ := h.breaching hs
    have hcool := hc hs
    rw [Monitor.coolingDown, hn, Option.any_some, decide_eq_false_iff_not] at hcool
    have hle : t ≤ last := by
      have ho := h.ordered
      rw [hb] at ht ho
      rcases List.mem_cons.1 ht with rfl | ht
      · exact le_rfl
      · exact List.rel_of_pairwise_cons ho ht
    simp only [Instant, Duration] at *
    omega

theorem step_inv {s t : AlertState A} {a : MonitorAction A × Instant} (h : AlertInv s)
    (hst : s.step a = some t) : AlertInv t := by
  rw [AlertState.step] at hst
  split_ifs at hst with hclock
  obtain rfl := Option.some.inj hst
  have ha := action_applied a.1 s.monitor a.2
  have hpast : ∀ t ∈ breach s.history, t ≤ a.2 := by
    intro t ht
    have := h.past t ht
    simp only [Instant] at *
    omega
  generalize a.1.applied s.monitor a.2 = r at ha
  cases ha with
  | fire r observed entering hen hcool hentering hstate hren hnotified =>
    have hlaw : Lawful s.history ⟨s.monitor, .fired s.monitor.id s.monitor.project observed
        s.monitor.threshold entering a.2⟩ :=
      ⟨hen, fun he ↦ ⟨hentering he, h.ok (hentering he)⟩, fires_apart h hcool⟩
    refine ⟨fun e rest ↦ lawful_cons h.lawful hlaw, fun _ ↦ ⟨hren, a.2, _, hnotified, rfl⟩, ?_, ?_, ?_⟩
    · intro hok
      rw [hstate] at hok
      cases hok
    · exact List.pairwise_cons.2 ⟨hpast, h.ordered⟩
    · intro t ht
      rcases List.mem_cons.1 ht with rfl | ht
      · exact le_rfl
      · exact hpast t ht
  | recover r observed hen hbreaching hstate =>
    obtain ⟨-, last, rest, -, hb⟩ := h.breaching hbreaching
    have hlaw : Lawful s.history ⟨s.monitor, .recovered s.monitor.id s.monitor.project observed
        a.2⟩ := ⟨hen, by rw [hb]; exact List.cons_ne_nil _ _⟩
    refine ⟨fun e rest ↦ lawful_cons h.lawful hlaw, ?_, fun _ ↦ rfl, .nil, by rintro t ⟨⟩⟩
    intro hs
    rw [hstate] at hs
    cases hs
  | reset r e hreset hstate =>
    have hb := breach_reset hreset s.monitor s.history
    have hlaw : Lawful s.history ⟨s.monitor, e⟩ := by
      cases e with
      | retargeted | disabled => trivial
      | created | renamed | reconfigured | enabled | fired | recovered =>
        exact absurd hreset (by simp [MonitorEvent.Reset])
    refine ⟨fun e rest ↦ lawful_cons h.lawful hlaw, ?_, fun _ ↦ hb, ?_, ?_⟩
    · intro hs
      rw [hstate] at hs
      cases hs
    · exact hb ▸ .nil
    · exact hb ▸ by rintro t ⟨⟩
  | quiet r events hneutral hstate hkept =>
    have hn : ∀ e ∈ events.reverse, e.Neutral := fun e he ↦ hneutral e (List.mem_reverse.1 he)
    have hb := breach_neutral hn s.monitor s.history
    refine ⟨fun e rest ↦ lawful_neutral hn s.monitor h.lawful, ?_, ?_, ?_, ?_⟩
    · intro hs
      obtain ⟨hen, last, rest, hl, hbr⟩ := h.breaching (hstate ▸ hs)
      obtain ⟨hren, hrn⟩ := hkept hen
      exact ⟨hren, last, rest, hrn.trans hl, hb.trans hbr⟩
    · intro hs
      exact hb.trans (h.ok (hstate ▸ hs))
    · exact hb.symm ▸ h.ordered
    · exact hb.symm ▸ hpast

def AlertState.initial (m : Monitor A) (clock : Instant) : AlertState A := ⟨m, [], clock⟩

theorem initial_inv {m : Monitor A} (h : m.state = .ok) (clock : Instant) :
    AlertInv (.initial m clock) where
  lawful e history hs := by simp [AlertState.initial] at hs
  breaching hb := by
    rw [AlertState.initial, h] at hb
    cases hb
  ok _ := rfl
  ordered := .nil
  past := by rintro t ⟨⟩

theorem create_ok {id : MonitorId} {workspace : JsString} {project : ProjectId} {name : JsString}
    {analysis : A} {threshold : Threshold} {at' : Instant} {settings : MonitorSettings}
    {created : MonitorApplied A}
    (h : Monitor.create id workspace project name analysis threshold at' settings = .ok created) :
    created.monitor.state = .ok := by
  rw [Monitor.create] at h
  split_ifs at h
  cases h
  rfl

/-- The law of a monitor's alerts over every run of a monitor that was created. -/
theorem alert_law {id : MonitorId} {workspace : JsString} {project : ProjectId} {name : JsString}
    {analysis : A} {threshold : Threshold} {at' : Instant} {settings : MonitorSettings}
    {created : MonitorApplied A} {actions : List (MonitorAction A × Instant)} {s : AlertState A}
    (hc : Monitor.create id workspace project name analysis threshold at' settings = .ok created)
    (hr : run AlertState.step (.initial created.monitor at') actions = some s) :
    (∀ e history, (e :: history) <:+ s.history → Lawful history e) ∧
      (s.monitor.state = .breaching →
        s.monitor.enabled = true ∧ s.monitor.lastNotifiedAt ≠ none) := by
  have hinv : AlertInv s := run_invariant (fun _ _ _ ↦ step_inv) (initial_inv (create_ok hc) at') hr
  refine ⟨hinv.lawful, fun hs ↦ ?_⟩
  obtain ⟨hen, t, -, hn, -⟩ := hinv.breaching hs
  exact ⟨hen, by rw [hn]; exact Option.some_ne_none t⟩

def sampleActions : List (MonitorAction Unit × Instant) :=
  [(.evaluate (15 : ℤ), 1000), (.evaluate (20 : ℤ), 2000), (.rename (js "Sales"), 3000),
    (.evaluate (20 : ℤ), 3601000), (.evaluate (5 : ℤ), 3602000), (.disable, 3603000)]

/-- A breach announced, kept quiet about for the hour, announced again and recovered from. -/
theorem alert_law_sample : ∃ created s,
    Monitor.create (js "m") (js "w") (js "p") (js " Signups ") () ⟨.above, (10 : ℤ)⟩ 0 ⟨none, none⟩ =
        .ok created ∧
      run AlertState.step (.initial created.monitor 0) sampleActions = some s ∧
      s.history.length = 5 ∧ (∀ e history, (e :: history) <:+ s.history → Lawful history e) ∧
      (s.monitor.state = .breaching →
        s.monitor.enabled = true ∧ s.monitor.lastNotifiedAt ≠ none) := by
  obtain ⟨created, hc⟩ : ∃ created, Monitor.create (js "m") (js "w") (js "p") (js " Signups ") ()
      ⟨.above, (10 : ℤ)⟩ 0 ⟨none, none⟩ = .ok created := ⟨_, rfl⟩
  obtain ⟨s, hs, hl⟩ : ∃ s, run AlertState.step (.initial created.monitor 0) sampleActions = some s ∧
      s.history.length = 5 := by
    cases hc
    exact ⟨_, rfl, rfl⟩
  exact ⟨created, s, hc, hs, hl, alert_law hc hs⟩

end Counted.Dashboarding
