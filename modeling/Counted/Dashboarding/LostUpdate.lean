import Counted.Dashboarding.MonitorStore

namespace Counted.Dashboarding

open Foundations Foundations.Keyed Ingestion

variable {A : Type}

def MonitorEvent.Entering : MonitorEvent → Prop
  | .fired _ _ _ _ entering _ => entering = true
  | .created .. | .renamed .. | .retargeted .. | .reconfigured .. | .enabled .. | .disabled ..
  | .recovered .. => False

/-- The same breach state, last notified at the same time. -/
def Monitor.Alike (m n : Monitor A) : Prop :=
  m.state = n.state ∧ m.lastNotifiedAt = n.lastNotifiedAt

/-- No breach of a history is announced as newly entered while it stands announced. -/
def AnnouncedOnce (history : List (Emission A)) : Prop :=
  ∀ e rest, (e :: rest) <:+ history → e.event.Entering → breach rest = []

/-- Evaluations, retargets, enables and disables. -/
def StoreAction.moves : StoreAction A → Bool
  | .evaluate .. => true
  | .edit _ command _ _ => command.moves
  | .claim _ | .finish _ | .load => false

theorem not_entering {e : MonitorEvent} (h : e.Neutral ∨ e.Reset) : ¬ e.Entering := by
  cases e with
  | fired => exact absurd h (by simp [MonitorEvent.Neutral, MonitorEvent.Reset])
  | created | renamed | retargeted | reconfigured | enabled | disabled | recovered =>
    exact id

theorem not_reset {e : MonitorEvent} (h : ¬ e.Moving) : ¬ e.Reset := by
  cases e with
  | retargeted | disabled => exact absurd trivial h
  | created | renamed | reconfigured | enabled | fired | recovered => exact id

theorem announcedOnce_append {history new : List (Emission A)} (h : AnnouncedOnce history)
    (hn : ∀ e ∈ new, ¬ e.event.Entering) : AnnouncedOnce (new ++ history) := by
  induction new with
  | nil => exact h
  | cons x new ih =>
    rw [List.forall_mem_cons] at hn
    intro e rest he hent
    rcases List.suffix_cons_iff.1 he with he | he
    · obtain ⟨rfl, -⟩ := List.cons.inj he
      exact absurd hent hn.1
    · exact ih hn.2 e rest he hent

theorem announcedOnce_cons {history : List (Emission A)} {x : Emission A}
    (h : AnnouncedOnce history) (hx : x.event.Entering → breach history = []) :
    AnnouncedOnce (x :: history) := by
  intro e rest he hent
  rcases List.suffix_cons_iff.1 he with he | he
  · obtain ⟨rfl, rfl⟩ := List.cons.inj he
    exact hx hent
  · exact h e rest he hent

theorem breach_resets {events : List MonitorEvent} (h : ∀ e ∈ events, e.Neutral ∨ e.Reset)
    (hr : ∃ e ∈ events, e.Reset) (m : Monitor A) (history : List (Emission A)) :
    breach (events.map (Emission.mk m) ++ history) = [] := by
  induction events with
  | nil =>
    obtain ⟨e, he, -⟩ := hr
    cases he
  | cons x events ih =>
    rw [List.forall_mem_cons] at h
    rw [List.map_cons, List.cons_append]
    rcases h.1 with hx | hx
    · obtain ⟨e, he, her⟩ := hr
      have hin : e ∈ events := by
        rcases List.mem_cons.1 he with rfl | he
        · cases e with
          | retargeted | disabled => cases hx
          | created | renamed | reconfigured | enabled | fired | recovered => cases her
        · exact he
      have hb : breach ([x].map (Emission.mk m) ++ (events.map (Emission.mk m) ++ history)) =
          breach (events.map (Emission.mk m) ++ history) := breach_neutral (by simpa using hx) m _
      exact hb.trans (ih h.2 ⟨e, hin, her⟩)
    · exact breach_reset hx m _

/-- What an evaluation can do. -/
inductive Evaluated (m : Monitor A) : MonitorApplied A → Prop
  | silent (r : Monitor A) : r.Alike m → Evaluated m ⟨r, []⟩
  | fire (r : Monitor A) (e : MonitorEvent) : r.state = .breaching → e.Moving →
    (e.Entering → m.state = .ok) → Evaluated m ⟨r, [e]⟩
  | recover (r : Monitor A) (observed : JsNumber) (at' : Instant) : r.state = .ok →
    Evaluated m ⟨r, [.recovered m.id m.project observed at']⟩

theorem outcome_evaluated (outcome : Outcome) (m : Monitor A) (at' : Instant) :
    Evaluated m (outcome.applied m at') := by
  cases outcome with
  | unavailable detail => exact .silent _ ⟨rfl, rfl⟩
  | measured observed =>
    rw [Outcome.applied, Monitor.evaluate, Monitor.decide]
    split_ifs with _ _ _ hs
    · exact .silent _ ⟨rfl, rfl⟩
    · exact .recover _ observed at' rfl
    · exact .silent _ ⟨rfl, rfl⟩
    · exact .fire _ _ rfl trivial fun _ ↦ hs
    · exact .silent _ ⟨rfl, rfl⟩
    · exact .fire _ _ rfl trivial (by rintro ⟨⟩)

namespace MonitorStore

/-- Saving a command that does not start breach state afresh, its load has seen all that moved the
breach state. -/
def SeenMoves (s : MonitorStore A) : StoreAction A → Prop
  | .edit i command _ _ => command.resets = false →
    ∀ edit, s.edits[i]? = some edit → ∀ e ∈ edit.since, ¬ e.event.Moving
  | .claim _ | .evaluate .. | .finish _ | .load => True

variable (isScalar : A → Except MonitorError Unit)

/-- An action that is none of those that move it leaves the breach state as it is. -/
def UpdateKept (s : MonitorStore A) (a : StoreAction A) : Prop :=
  a.moves = false → ∀ t, s.step isScalar a = some t → t.row.monitor.Alike s.row.monitor

structure UpdateInv (s : MonitorStore A) : Prop extends ClaimInv s where
  snapshot : ∀ i, s.holder = some i → ∀ e ∈ s.evaluations, e.claim = i →
    e.monitor.Alike s.row.monitor
  loaded : ∀ edit ∈ s.edits, (∀ e ∈ edit.since, ¬ e.event.Moving) →
    edit.loaded.Alike s.row.monitor
  quiet : s.row.monitor.state = .ok → breach s.history = []
  announced : AnnouncedOnce s.history

variable {isScalar} {s t : MonitorStore A}

theorem initial_updateInv {m : Monitor A} (hm : m.state = .ok) (deliveries : Deliveries) :
    UpdateInv (initial m deliveries) where
  toClaimInv := initial_inv m deliveries
  snapshot := by rintro i ⟨⟩
  loaded := by rintro edit ⟨⟩
  quiet _ := rfl
  announced := by
    intro e rest he
    simp [initial] at he

/-- A save that moves the breach state says so. -/
theorem UpdateInv.save (h : UpdateInv s) {before : Monitor A} {applied : MonitorApplied A}
    {now : Instant} {i : Option ℕ} (hi : ∀ j, i = some j → s.holder = some j)
    (hmove : (∀ e ∈ applied.events, ¬ e.Moving) → applied.monitor.Alike s.row.monitor)
    (hok : applied.monitor.state = .ok →
      breach (applied.events.reverse.map (Emission.mk before) ++ s.history) = [])
    (hann : AnnouncedOnce (applied.events.reverse.map (Emission.mk before) ++ s.history)) :
    UpdateInv (s.save before applied now i) := by
  have hc : ClaimInv (s.save before applied now i) := h.toClaimInv.save hi
  rw [MonitorStore.save] at hc ⊢
  split_ifs at hc ⊢
  · refine ⟨hc, by rintro j ⟨⟩, ?_, hok, hann⟩
    intro edit hedit hsince
    obtain ⟨old, hold, rfl⟩ := List.mem_map.1 hedit
    have hnew : ∀ e ∈ applied.events, ¬ e.Moving := fun e he ↦
      hsince ⟨before, e⟩ (List.mem_append_left _
        (List.mem_map_of_mem (List.mem_reverse.2 he)))
    have hkept := hmove hnew
    have hloaded := h.loaded old hold fun e he ↦ hsince e (List.mem_append_right _ he)
    exact ⟨hloaded.1.trans hkept.1.symm, hloaded.2.trans hkept.2.symm⟩
  · exact h

theorem UpdateInv.evaluate (h : UpdateInv s) {e : Evaluation A} (he : e ∈ s.evaluations)
    (outcome : Outcome) (now : Instant) : UpdateInv (s.evaluate e outcome now) := by
  cases ha : s.row.accepts (outcome.applied e.monitor e.token).monitor with
  | false =>
    rw [MonitorStore.evaluate, save_refused ha]
    exact h
  | true =>
    have hholder := h.accepted he ha
    have hlike := h.snapshot e.claim hholder e he rfl
    have ho := outcome_evaluated outcome e.monitor e.token
    rw [MonitorStore.evaluate]
    generalize outcome.applied e.monitor e.token = r at ho
    have hi : ∀ j, some e.claim = some j → s.holder = some j := fun j hj ↦ hj ▸ hholder
    cases ho with
    | silent r hr =>
      exact h.save hi (fun _ ↦ ⟨hr.1.trans hlike.1, hr.2.trans hlike.2⟩)
        (fun hs ↦ h.quiet ((hr.1.trans hlike.1).symm.trans hs)) h.announced
    | fire r x hr hx hent =>
      refine h.save hi (fun hm ↦ absurd hx (hm x (List.mem_singleton_self x))) ?_ ?_
      · intro hs
        rw [hr] at hs
        cases hs
      · exact announcedOnce_cons h.announced fun hx ↦ h.quiet (hlike.1 ▸ hent hx)
    | recover r observed at' hr =>
      refine h.save hi (fun hm ↦ absurd trivial (hm _ (List.mem_singleton_self _))) (fun _ ↦ rfl) ?_
      exact announcedOnce_cons h.announced (by rintro ⟨⟩)

theorem UpdateInv.commit (h : UpdateInv s) {command : MonitorCommand A} {loaded : Monitor A}
    {at' : Instant} (hl : command.resets = false → loaded.Alike s.row.monitor) (now : Instant) :
    UpdateInv (s.commit loaded now (command.applied isScalar loaded at')) := by
  cases hr : command.applied isScalar loaded at' with
  | error e => exact h
  | ok applied =>
    have hc := command_commanded hr
    have hevents : ∀ e ∈ applied.events.reverse, e.Neutral ∨ e.Reset := fun e he ↦
      hc.events e (List.mem_reverse.1 he)
    rw [MonitorStore.commit]
    split_ifs
    · exact h
    refine h.save (by rintro j ⟨⟩) ?_ ?_ ?_
    · intro hm
      have hres : command.resets = false := Bool.eq_false_iff.2 fun hres ↦ by
        obtain ⟨e, he, her⟩ := hc.reset.1 hres
        exact not_reset (hm e he) her
      have hlike := hl hres
      refine ⟨?_, (hc.notified hm).trans hlike.2⟩
      rw [hc.state, hres]
      exact hlike.1
    · intro hs
      cases hres : command.resets with
      | true =>
        obtain ⟨e, he, her⟩ := hc.reset.1 hres
        exact breach_resets hevents ⟨e, List.mem_reverse.2 he, her⟩ loaded s.history
      | false =>
        have hneutral : ∀ e ∈ applied.events.reverse, e.Neutral := fun e he ↦
          (hevents e he).resolve_right fun her ↦
            absurd (hc.reset.2 ⟨e, List.mem_reverse.1 he, her⟩) (by rw [hres]; decide)
        rw [breach_neutral hneutral]
        rw [hc.state, hres] at hs
        exact h.quiet ((hl hres).1 ▸ hs)
    · refine announcedOnce_append h.announced fun e he ↦ ?_
      obtain ⟨x, hx, rfl⟩ := List.mem_map.1 he
      exact not_entering (hevents x hx)

theorem UpdateInv.claim (h : UpdateInv s) {at' : Instant}
    (hf : ∀ e ∈ s.evaluations, e.token ≠ at') : UpdateInv (s.claim at') where
  toClaimInv := h.toClaimInv.claim hf
  snapshot := by
    intro i hi e he hei
    obtain rfl := Option.some.inj hi
    rcases List.mem_cons.1 he with rfl | he
    · exact ⟨rfl, rfl⟩
    · exact absurd hei (h.running e he).1.ne
  loaded := h.loaded
  quiet := h.quiet
  announced := h.announced

/-- A command saved in time goes on from the breach state of the row. -/
theorem UpdateInv.seen (h : UpdateInv s) {i : ℕ} {command : MonitorCommand A} {at' now : Instant}
    (hs : s.SeenMoves (.edit i command at' now)) {edit : Edit A} (he : s.edits[i]? = some edit)
    (hr : command.resets = false) : edit.loaded.Alike s.row.monitor :=
  h.loaded edit (List.mem_of_getElem? he) (hs hr edit he)

theorem step_updateInv {a : StoreAction A} (h : UpdateInv s) (hf : s.FreshToken a ∧ s.SeenMoves a)
    (hs : s.step isScalar a = some t) : UpdateInv t := by
  have hc := step_claimInv h.toClaimInv hf.1 hs
  cases a with
  | claim at' =>
    rw [step] at hs
    split_ifs at hs
    exact Option.some.inj hs ▸ h.claim hf.1
  | evaluate i outcome now =>
    obtain ⟨e, he, rfl⟩ := Option.map_eq_some_iff.1 hs
    exact h.evaluate (lookup_eq_some he).1 outcome now
  | finish i =>
    obtain rfl := Option.some.inj hs
    exact ⟨hc, fun j hj e he ↦ h.snapshot j hj e (mem_remove.1 he).1, h.loaded, h.quiet,
      h.announced⟩
  | load =>
    obtain rfl := Option.some.inj hs
    refine ⟨hc, h.snapshot, fun edit hedit hsince ↦ ?_, h.quiet, h.announced⟩
    rcases List.mem_append.1 hedit with hedit | hedit
    · exact h.loaded edit hedit hsince
    · rw [List.mem_singleton.1 hedit]
      exact ⟨rfl, rfl⟩
  | edit i command at' now =>
    obtain ⟨edit, he, rfl⟩ := Option.map_eq_some_iff.1 hs
    exact h.commit (h.seen hf.2 he) now

theorem commit_alike {loaded : Monitor A} {command : MonitorCommand A} {at' now : Instant}
    (hm : command.moves = false) (hr : command.resets = false)
    (hl : loaded.Alike s.row.monitor) :
    (s.commit loaded now (command.applied isScalar loaded at')).row.monitor.Alike
      s.row.monitor := by
  cases happ : command.applied isScalar loaded at' with
  | error e => exact ⟨rfl, rfl⟩
  | ok applied =>
    have hc := command_commanded happ
    rw [MonitorStore.commit, MonitorStore.save]
    split_ifs
    · exact ⟨rfl, rfl⟩
    · refine ⟨?_, (hc.notified (hc.still hm)).trans hl.2⟩
      have hstate := hc.state
      rw [hr] at hstate
      exact hstate.trans hl.1
    · exact ⟨rfl, rfl⟩

theorem resets_moves {command : MonitorCommand A} (h : command.moves = false) :
    command.resets = false := by
  cases command with
  | update input => exact h
  | enable | disable => cases h

theorem UpdateInv.kept (h : UpdateInv s) {a : StoreAction A} (hs : s.SeenMoves a) :
    s.UpdateKept isScalar a := by
  intro hm t ht
  cases a with
  | claim at' =>
    rw [step] at ht
    split_ifs at ht
    obtain rfl := Option.some.inj ht
    exact ⟨rfl, rfl⟩
  | evaluate => cases hm
  | finish | load =>
    obtain rfl := Option.some.inj ht
    exact ⟨rfl, rfl⟩
  | edit i command at' now =>
    obtain ⟨edit, he, rfl⟩ := Option.map_eq_some_iff.1 ht
    exact commit_alike hm (resets_moves hm) (h.seen hs he (resets_moves hm))

/-- No update of a monitor is lost along a run whose claims have fresh tokens and whose commands
have seen what they would write over. -/
theorem no_lost_update (isScalar : A → Except MonitorError Unit) {id : MonitorId}
    {workspace : JsString} {project : ProjectId} {name : JsString} {analysis : A}
    {threshold : Threshold} {at' : Instant} {settings : MonitorSettings}
    {created : MonitorApplied A} (deliveries : Deliveries) {actions : List (StoreAction A)}
    (hc : Monitor.create id workspace project name analysis threshold at' settings = .ok created)
    (h : Along (step isScalar) (fun s a ↦ s.FreshToken a ∧ s.SeenMoves a)
      (initial created.monitor deliveries) actions) :
    Along (step isScalar) (UpdateKept isScalar) (initial created.monitor deliveries) actions ∧
      Throughout (step isScalar) (fun s ↦ AnnouncedOnce s.history)
        (initial created.monitor deliveries) actions := by
  have h0 := initial_updateInv (create_ok hc) deliveries
  refine ⟨h.imp (fun _ _ _ ↦ step_updateInv) (fun _ _ hi hs ↦ hi.kept hs.2) h0, ?_⟩
  exact (throughout_of_along (fun _ _ _ ↦ step_updateInv) h0 h).mono fun _ ↦ UpdateInv.announced

/-- A user loads the monitor, and the worker announces a breach before the user's save. -/
def overlapping : List (StoreAction Unit) :=
  [.load, .claim 1000, .evaluate 0 (.measured (15 : ℤ)) 1000, .finish 0]

/-- The rename writes the loaded breach state back, and the breach is announced as new again. -/
theorem rename_restores :
    (¬ ∀ actions : List (StoreAction Unit),
      Along (step anyScalar) (UpdateKept anyScalar) (initial sampleMonitor []) actions) ∧
    ¬ ∀ actions : List (StoreAction Unit),
      Throughout (step anyScalar) (fun s ↦ AnnouncedOnce s.history) (initial sampleMonitor [])
        actions := by
  constructor
  · intro h
    have hk := (h (overlapping ++ [.edit 0 (.update newName) 2000 2000])).after
      (l := overlapping) rfl
    exact absurd (hk rfl _ rfl).1 (by decide)
  · intro h
    have ha := (h (overlapping ++ [.edit 0 (.update newName) 2000 2000, .claim 3000,
      .evaluate 1 (.measured (15 : ℤ)) 3000])).last rfl
    exact absurd (ha _ _ (List.suffix_refl _) rfl) (by decide)

/-- The same rename loaded once the breach has been announced. -/
def inTurn : List (StoreAction Unit) :=
  [.claim 1000, .evaluate 0 (.measured (15 : ℤ)) 1000, .finish 0, .load,
    .edit 0 (.update newName) 2000 2000]

theorem no_lost_update_sample : ∃ created,
    Monitor.create (js "m") (js "w") (js "p") (js "Signups") () ⟨.above, (10 : ℤ)⟩ 0
        ⟨none, some [.email (js "a")]⟩ = .ok created ∧
      Along (step anyScalar) (UpdateKept anyScalar) (initial created.monitor []) inTurn ∧
      Throughout (step anyScalar) (fun s ↦ AnnouncedOnce s.history) (initial created.monitor [])
        inTurn := by
  obtain ⟨created, hc⟩ : ∃ created, Monitor.create (js "m") (js "w") (js "p") (js "Signups") ()
      ⟨.above, (10 : ℤ)⟩ 0 ⟨none, some [.email (js "a")]⟩ = .ok created := ⟨_, rfl⟩
  refine ⟨created, hc, no_lost_update anyScalar [] hc ?_⟩
  obtain rfl := Except.ok.inj hc
  refine ⟨⟨by rintro e ⟨⟩, trivial⟩, fun s₁ h₁ ↦ ?_⟩
  obtain rfl := Option.some.inj h₁
  refine ⟨⟨trivial, trivial⟩, fun s₂ h₂ ↦ ?_⟩
  obtain rfl := Option.some.inj h₂
  refine ⟨⟨trivial, trivial⟩, fun s₃ h₃ ↦ ?_⟩
  obtain rfl := Option.some.inj h₃
  refine ⟨⟨trivial, trivial⟩, fun s₄ h₄ ↦ ?_⟩
  obtain rfl := Option.some.inj h₄
  refine ⟨⟨trivial, fun _ edit he ↦ ?_⟩, fun _ _ ↦ trivial⟩
  obtain rfl := Option.some.inj he
  rintro e ⟨⟩

end MonitorStore

end Counted.Dashboarding
