import Counted.Dashboarding.AlertLaw
import Counted.Ingestion.Admission

namespace Counted.Dashboarding

open Foundations Ingestion

variable {A : Type}

/-- The fields of `UpdateMonitorInput` beside the monitor. -/
structure MonitorUpdate (A : Type) where
  name : Option JsString
  analysis : Option A
  threshold : Option Threshold
  cooldown : Option Duration
  channels : Option (List Channel)

inductive MonitorCommand (A : Type)
  | update (input : MonitorUpdate A)
  | enable
  | disable

def MonitorUpdate.retargets (input : MonitorUpdate A) : Bool :=
  input.analysis.isSome || input.threshold.isSome

def MonitorUpdate.reconfigures (input : MonitorUpdate A) : Bool :=
  input.cooldown.isSome || input.channels.isSome

section

variable (isScalar : A → Except MonitorError Unit)

def renamed (m : Monitor A) (at' : Instant) (input : MonitorUpdate A) : MonitorResult A :=
  match input.name with
  | some name => m.rename name at'
  | none => .ok ⟨m, []⟩

def retargeted (m : Monitor A) (at' : Instant) (input : MonitorUpdate A) : MonitorResult A :=
  if input.retargets then
    let analysis := input.analysis.getD m.analysis
    (isScalar analysis).bind (fun _ ↦
      m.retarget analysis (input.threshold.getD m.threshold) at')
  else .ok ⟨m, []⟩

def reconfigured (m : Monitor A) (at' : Instant) (input : MonitorUpdate A) : MonitorResult A :=
  if input.reconfigures then m.reconfigure ⟨input.cooldown, input.channels⟩ at' else .ok ⟨m, []⟩

/-- Goes on from what was applied so far. -/
def MonitorApplied.andThen (applied : MonitorApplied A) (next : Monitor A → MonitorResult A) :
    MonitorResult A :=
  (next applied.monitor).map (fun r ↦ ⟨r.monitor, applied.events ++ r.events⟩)

/-- One update surface, three domain commands. -/
def updateMonitor (found : Monitor A) (input : MonitorUpdate A) (at' : Instant) :
    MonitorResult A :=
  (renamed found at' input).bind fun r ↦
    (r.andThen (retargeted isScalar · at' input)).bind fun r ↦
      r.andThen (reconfigured · at' input)

def MonitorCommand.applied (m : Monitor A) (at' : Instant) : MonitorCommand A → MonitorResult A
  | .update input => updateMonitor isScalar m input at'
  | .enable => m.enable at'
  | .disable => m.disable at'

end

/-- The commands that start breach state afresh. -/
def MonitorCommand.resets : MonitorCommand A → Bool
  | .update input => input.retargets
  | .enable => false
  | .disable => true

/-- The commands that may write another breach state or last notification than they loaded. -/
def MonitorCommand.moves : MonitorCommand A → Bool
  | .update input => input.retargets
  | .enable | .disable => true

/-- An event that says the breach state or the last notification is another one. -/
def MonitorEvent.Moving : MonitorEvent → Prop
  | .fired .. | .recovered .. | .retargeted .. | .disabled .. | .enabled .. => True
  | .created .. | .renamed .. | .reconfigured .. => False

/-- What applying commands can do. -/
structure Commanded (m : Monitor A) (r : MonitorApplied A) (resets moves : Bool) : Prop where
  events : ∀ e ∈ r.events, e.Neutral ∨ e.Reset
  still : moves = false → ∀ e ∈ r.events, ¬ e.Moving
  state : r.monitor.state = if resets then .ok else m.state
  reset : resets = true ↔ ∃ e ∈ r.events, e.Reset
  notified : (∀ e ∈ r.events, ¬ e.Moving) → r.monitor.lastNotifiedAt = m.lastNotifiedAt
  claim : r.monitor.evaluationClaim = m.evaluationClaim

theorem commanded_none (m : Monitor A) : Commanded m ⟨m, []⟩ false false where
  events := by rintro e ⟨⟩
  still := by rintro - e ⟨⟩
  state := rfl
  reset := by simp
  notified _ := rfl
  claim := rfl

theorem Commanded.andThen {m : Monitor A} {r s : MonitorApplied A} {a b c d : Bool}
    {next : Monitor A → MonitorResult A} (h : Commanded m r a c)
    (hn : ∀ n, next r.monitor = .ok n → Commanded r.monitor n b d) (hs : r.andThen next = .ok s) :
    Commanded m s (a || b) (c || d) := by
  rw [MonitorApplied.andThen] at hs
  cases hr : next r.monitor with
  | error e =>
    rw [hr] at hs
    cases hs
  | ok n =>
  rw [hr] at hs
  obtain rfl := Except.ok.inj hs
  have h' := hn n hr
  refine ⟨?_, ?_, ?_, ?_, ?_, h'.claim.trans h.claim⟩
  · intro e he
    rcases List.mem_append.1 he with he | he
    · exact h.events e he
    · exact h'.events e he
  · intro hm e he
    rw [Bool.or_eq_false_iff] at hm
    rcases List.mem_append.1 he with he | he
    · exact h.still hm.1 e he
    · exact h'.still hm.2 e he
  · rw [h'.state, h.state]
    cases a <;> cases b <;> rfl
  · simp only [Bool.or_eq_true, h.reset, h'.reset, List.mem_append, or_and_right, exists_or]
  · intro hm
    rw [h'.notified (fun e he ↦ hm e (List.mem_append_right _ he)),
      h.notified (fun e he ↦ hm e (List.mem_append_left _ he))]

variable {isScalar : A → Except MonitorError Unit} {m : Monitor A} {at' : Instant}
  {r : MonitorApplied A}

theorem renamed_commanded {input : MonitorUpdate A} (h : renamed m at' input = .ok r) :
    Commanded m r false false := by
  rw [renamed] at h
  cases hn : input.name with
  | none =>
    rw [hn] at h
    obtain rfl := Except.ok.inj h
    exact commanded_none m
  | some name =>
    rw [hn] at h
    simp only [Monitor.rename] at h
    split_ifs at h
    obtain rfl := Except.ok.inj h
    exact ⟨by simp [MonitorEvent.Neutral], by simp [MonitorEvent.Moving], rfl,
      by simp [MonitorEvent.Reset], fun _ ↦ rfl, rfl⟩

theorem retargeted_commanded {input : MonitorUpdate A}
    (h : retargeted isScalar m at' input = .ok r) : Commanded m r input.retargets input.retargets := by
  rw [retargeted] at h
  split_ifs at h with hr
  · obtain ⟨-, -, h⟩ := bind_ok h
    obtain rfl := Except.ok.inj h
    rw [hr]
    exact ⟨by simp [MonitorEvent.Reset], by rintro ⟨⟩, rfl, by simp [MonitorEvent.Reset],
      by simp [MonitorEvent.Moving], rfl⟩
  · obtain rfl := Except.ok.inj h
    rw [Bool.eq_false_iff.2 hr]
    exact commanded_none m

theorem reconfigured_commanded {input : MonitorUpdate A} (h : reconfigured m at' input = .ok r) :
    Commanded m r false false := by
  rw [reconfigured] at h
  split_ifs at h with hr
  · simp only [Monitor.reconfigure] at h
    split_ifs at h
    obtain rfl := Except.ok.inj h
    exact ⟨by simp [MonitorEvent.Neutral], by simp [MonitorEvent.Moving], rfl,
      by simp [MonitorEvent.Reset], fun _ ↦ rfl, rfl⟩
  · obtain rfl := Except.ok.inj h
    exact commanded_none m

theorem command_commanded {command : MonitorCommand A}
    (h : command.applied isScalar m at' = .ok r) : Commanded m r command.resets command.moves := by
  cases command with
  | update input =>
    obtain ⟨r₁, h₁, h⟩ := bind_ok h
    obtain ⟨r₂, h₂, h⟩ := bind_ok h
    have hr₂ := (renamed_commanded h₁).andThen (fun _ ↦ retargeted_commanded) h₂
    have hr := hr₂.andThen (fun _ ↦ reconfigured_commanded) h
    rwa [Bool.false_or, Bool.or_false] at hr
  | enable =>
    rw [MonitorCommand.applied, Monitor.enable] at h
    split_ifs at h
    obtain rfl := Except.ok.inj h
    exact ⟨by simp [MonitorEvent.Neutral], by rintro ⟨⟩, rfl,
      by simp [MonitorCommand.resets, MonitorEvent.Reset],
      by simp [MonitorEvent.Moving], rfl⟩
  | disable =>
    rw [MonitorCommand.applied, Monitor.disable] at h
    split_ifs at h
    obtain rfl := Except.ok.inj h
    exact ⟨by simp [MonitorEvent.Reset], by rintro ⟨⟩, rfl,
      by simp [MonitorCommand.resets, MonitorEvent.Reset],
      by simp [MonitorEvent.Moving], rfl⟩

end Counted.Dashboarding
