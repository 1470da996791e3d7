import Counted.AgentTelemetry.Setup

namespace Counted.AgentTelemetry

open Foundations

variable (sha256 : JsString → JsString) (tmp : TemporaryDirectory) (host : AgentHost)

/-- What the machine shows a process: with the model only where the process starts the session. -/
def Invocation.projection (i : Invocation) : SetupProjection :=
  projectionFor sha256 host (i.directory host)
    (if i.starts host then (i.reading host).model else none) i.mode

/-- The first event of a session. -/
def Hooks.first (s : Hooks) (id : JsString) : Option Handled :=
  s.handled.find? fun e ↦ e.invocation.session host = some id

/-- The file of a session's cache. -/
def cacheFile (id : JsString) : Option JsString := tmp.file (cachePath host id)

/-- Events of a session before left it a cache that can be read. -/
def Hooks.HasCache (s : Hooks) (id : JsString) : Prop :=
  (cacheFile tmp host id).isSome ∧ ∃ e ∈ s.handled, e.invocation.session host = some id ∧
    e.invocation.starts host = true

/-- A process keeps its session's setup: the session's file is no other session's, and where the
process computes the setup it finds the one the first event of the session found. A model is no
longer than the vocabulary allows. -/
structure Steady (s : Hooks) (i : Invocation) : Prop where
  ownFile : ∀ id, i.acts host = true → i.session host = some id → ∀ e ∈ s.handled, ∀ other,
    e.invocation.session host = some other → e.invocation.starts host = true →
      (cacheFile tmp host id).isSome → cacheFile tmp host other = cacheFile tmp host id → other = id
  sameSetup : ∀ id, i.acts host = true → i.session host = some id →
    (i.starts host = true ∨ ¬ s.HasCache tmp host id) → ∀ e, s.first host id = some e →
      normalize (i.projection sha256 host) = normalize (e.invocation.projection sha256 host)
  shortModel : i.acts host = true → i.starts host = true →
    (i.reading host).model.all (·.length ≤ 120) = true

/-- One session, one setup. -/
structure OneSetup (s : Hooks) : Prop where
  same : ∀ id first, s.first host id = some first → ∀ e ∈ s.handled,
    e.invocation.session host = some id →
      e.context.map (·.fingerprint.setupHash) = some first.setup.fingerprint.setupHash
  own : ∀ pre e post id, s.handled = pre ++ e :: post → e.cached = true →
    e.invocation.session host = some id → ∃ w ∈ pre, w.invocation.session host = some id ∧
      w.invocation.starts host = true ∧ w.setup = e.setup
  apart : ∀ e ∈ s.handled, ∀ e' ∈ s.handled, ∀ id id', e.invocation.session host = some id →
    e'.invocation.session host = some id' → e.invocation.starts host = true →
      e'.invocation.starts host = true → (cacheFile tmp host id).isSome →
        cacheFile tmp host id = cacheFile tmp host id' → id = id'

/-- The events so far and the caches they left. -/
structure Invariant (s : Hooks) : Prop where
  own : ∀ pre e post id, s.handled = pre ++ e :: post → e.cached = true →
    e.invocation.session host = some id → ∃ w ∈ pre, w.invocation.session host = some id ∧
      w.invocation.starts host = true ∧ w.setup = e.setup
  apart : ∀ e ∈ s.handled, ∀ e' ∈ s.handled, ∀ id id', e.invocation.session host = some id →
    e'.invocation.session host = some id' → e.invocation.starts host = true →
      e'.invocation.starts host = true → (cacheFile tmp host id).isSome →
        cacheFile tmp host id = cacheFile tmp host id' → id = id'
  /-- A cache is what a start of some session wrote. -/
  written : ∀ file setup, s.caches file = some setup → ∃ w ∈ s.handled, ∃ id,
    w.invocation.session host = some id ∧ w.invocation.starts host = true ∧
      cacheFile tmp host id = some file ∧ w.setup = setup
  /-- A start left a cache. -/
  left : ∀ w ∈ s.handled, ∀ id file, w.invocation.session host = some id →
    w.invocation.starts host = true → cacheFile tmp host id = some file → (s.caches file).isSome
  /-- Every event of a session has the setup the first one found. -/
  setup : ∀ id first, s.first host id = some first → ∀ e ∈ s.handled,
    e.invocation.session host = some id →
      normalize e.setup.projection = normalize (first.invocation.projection sha256 host) ∧
        e.setup.fingerprint = setupFingerprint sha256 e.setup.projection ∧
          e.setup.projection.model.all (·.length ≤ 120) = true ∧
            e.context = registerSetup sha256 e.invocation.label e.setup.projection

variable {sha256 tmp host} {s : Hooks} {i : Invocation} {id : JsString} {first : Handled}

theorem first_isSome {e : Handled} (he : e ∈ s.handled) (hs : e.invocation.session host = some id) :
    ∃ first, s.first host id = some first :=
  Option.isSome_iff_exists.1 (List.find?_isSome.2 ⟨e, he, decide_eq_true hs⟩)

theorem mem_of_first (h : s.first host id = some first) :
    first ∈ s.handled ∧ first.invocation.session host = some id :=
  ⟨List.mem_of_find?_eq_some h, by simpa using List.find?_some h⟩

theorem projectionFor_model (dir : Directory) (model mode : Option JsString) :
    (projectionFor sha256 host dir model mode).model = model := by
  rw [projectionFor]
  split_ifs <;> rfl

theorem truncate_length (value : JsString) {max : ℕ} (h : 0 < max) :
    (truncate value max).length ≤ max := by
  rw [truncate]
  split_ifs with hle
  · exact hle
  · rw [List.length_append, List.length_take, List.length_singleton]
    omega

theorem setupHash_congr {p q : SetupProjection} (h : normalize p = normalize q) :
    (setupFingerprint sha256 p).setupHash = (setupFingerprint sha256 q).setupHash := by
  rw [setupFingerprint, setupFingerprint, h]

/-- Nothing but the model can be too long. -/
theorem registerSetup_hash (label : Option JsString) {p : SetupProjection}
    (h : p.model.all (·.length ≤ 120) = true) :
    (registerSetup sha256 label p).map (·.fingerprint.setupHash) =
      some (setupFingerprint sha256 p).setupHash := by
  have hhash : (setupFingerprint sha256 p).setupHash.length ≤ 64 :=
    (List.length_take_le 16 _).trans (by decide)
  have hspec : (setupFingerprint sha256 p).setupSpec.length ≤ 40 := by
    change setupSpec.length ≤ 40
    decide
  have hhost : (setupFingerprint sha256 p).setupHostSpec.length ≤ 60 := by
    change (setupSpec ++ js "+" ++ p.host.name).length ≤ 60
    cases p.host <;> decide
  have hlabel : (label.map (truncate · 80)).all (·.length ≤ 80) = true := by
    cases label with
    | none => rfl
    | some l => exact decide_eq_true (truncate_length l (by decide))
  have hvalid : validateAgentContext
      ⟨setupFingerprint sha256 p, p.model, label.map (truncate · 80)⟩ = true := by
    rw [validateAgentContext, h, hlabel, decide_eq_true hhash, decide_eq_true hspec,
      decide_eq_true hhost]
    rfl
  rw [registerSetup, if_pos hvalid]
  rfl

theorem Invariant.oneSetup (h : Invariant sha256 tmp host s) : OneSetup tmp host s := by
  refine ⟨fun id first hfirst e he hs ↦ ?_, h.own, h.apart⟩
  obtain ⟨hmem, hsession⟩ := mem_of_first hfirst
  obtain ⟨hnorm, -, hmodel, hcontext⟩ := h.setup id first hfirst e he hs
  obtain ⟨hnorm', hfinger, -⟩ := h.setup id first hfirst first hmem hsession
  rw [hcontext, registerSetup_hash _ hmodel, hfinger, setupHash_congr (hnorm.trans hnorm'.symm)]

/-! ### One process -/

variable (sha256 tmp host s i) in
/-- What a process resolves. -/
def Invocation.resolved : Resolved :=
  resolveSetup sha256 tmp host s.caches (i.session host) (i.directory host)
    (i.reading host).model i.mode (i.starts host)

variable (sha256 host i) in
/-- What a process computes from the machine. -/
def Invocation.computed : CachedSetup :=
  ⟨i.projection sha256 host, setupFingerprint sha256 (i.projection sha256 host)⟩

theorem compute_eq : compute sha256 host (i.directory host)
    (if i.starts host then (i.reading host).model else none) i.mode = i.computed sha256 host := rfl

theorem resolved_none (hs : i.session host = none) :
    (i.resolved sha256 tmp host s).caches = s.caches := by
  rw [Invocation.resolved, resolveSetup.eq_def, hs]

theorem resolved_starts (hs : i.session host = some id) (hi : i.starts host = true) :
    (i.resolved sha256 tmp host s).setup = i.computed sha256 host ∧
      (i.resolved sha256 tmp host s).cached = false ∧
      ∀ file, (i.resolved sha256 tmp host s).caches file =
        if cacheFile tmp host id = some file then some (i.computed sha256 host)
        else s.caches file := by
  have hcomputed := @compute_eq sha256 host i
  rw [hi, if_pos rfl] at hcomputed
  rw [Invocation.resolved, resolveSetup.eq_def, hs, hi, cacheFile]
  dsimp only
  rw [if_neg (show ¬ (!true) = true by decide), hcomputed]
  cases hfile : tmp.file (cachePath host id) with
  | none => exact ⟨rfl, rfl, fun file ↦ (if_neg nofun).symm⟩
  | some path =>
    refine ⟨rfl, rfl, fun file ↦ ?_⟩
    by_cases h : path = file
    · subst h
      rw [if_pos rfl]
      exact Function.update_self ..
    · rw [if_neg fun heq ↦ h (Option.some.inj heq)]
      exact Function.update_of_ne (Ne.symm h) ..

theorem resolved_hit (hs : i.session host = some id) (hi : i.starts host = false)
    {setup : CachedSetup} (hhit : (cacheFile tmp host id).bind s.caches = some setup) :
    i.resolved sha256 tmp host s = ⟨setup, true, s.caches⟩ := by
  rw [cacheFile] at hhit
  rw [Invocation.resolved, resolveSetup.eq_def, hs, hi]
  dsimp only
  rw [if_pos (show (!false) = true from rfl), hhit]

theorem resolved_miss (hs : i.session host = some id) (hi : i.starts host = false)
    (hmiss : (cacheFile tmp host id).bind s.caches = none) :
    i.resolved sha256 tmp host s = ⟨i.computed sha256 host, false, s.caches⟩ := by
  have hcomputed := @compute_eq sha256 host i
  rw [hi, if_neg Bool.false_ne_true] at hcomputed
  rw [cacheFile] at hmiss
  rw [Invocation.resolved, resolveSetup.eq_def, hs, hi]
  dsimp only
  rw [if_pos (show (!false) = true from rfl), hmiss, hcomputed]

/-- What a process reads from the cache is its own session's. -/
theorem hit_own (h : Invariant sha256 tmp host s) (hsteady : Steady sha256 tmp host s i)
    (hacts : i.acts host = true) (hs : i.session host = some id) {setup : CachedSetup}
    (hhit : (cacheFile tmp host id).bind s.caches = some setup) :
    ∃ w ∈ s.handled, w.invocation.session host = some id ∧ w.invocation.starts host = true ∧
      w.setup = setup := by
  obtain ⟨file, hfile, hsetup⟩ := Option.bind_eq_some_iff.1 hhit
  obtain ⟨w, hw, other, hws, hwstarts, hwfile, rfl⟩ := h.written file setup hsetup
  obtain rfl := hsteady.ownFile id hacts hs w hw other hws hwstarts (by rw [hfile]; rfl)
    (hwfile.trans hfile.symm)
  exact ⟨w, hw, hws, hwstarts, rfl⟩

/-- What the next event of a session is stamped with. -/
theorem resolved_setup (h : Invariant sha256 tmp host s) (hsteady : Steady sha256 tmp host s i)
    (hacts : i.acts host = true) (hs : i.session host = some id) :
    let setup := (i.resolved sha256 tmp host s).setup
    setup.fingerprint = setupFingerprint sha256 setup.projection ∧
      setup.projection.model.all (·.length ≤ 120) = true ∧
        ((s.first host id = none ∧ setup = i.computed sha256 host) ∨ ∃ first,
          s.first host id = some first ∧
            normalize setup.projection = normalize (first.invocation.projection sha256 host)) := by
  -- what is computed agrees with the first event, and its model is short
  have hfresh (hcomputes : i.starts host = true ∨ ¬ s.HasCache tmp host id) :
      (i.computed sha256 host).fingerprint =
          setupFingerprint sha256 (i.computed sha256 host).projection ∧
        (i.computed sha256 host).projection.model.all (·.length ≤ 120) = true ∧
          ((s.first host id = none ∧ i.computed sha256 host = i.computed sha256 host) ∨ ∃ first,
            s.first host id = some first ∧ normalize (i.computed sha256 host).projection =
              normalize (first.invocation.projection sha256 host)) := by
    refine ⟨rfl, ?_, ?_⟩
    · rw [Invocation.computed, Invocation.projection, projectionFor_model]
      by_cases hi : i.starts host = true
      · rw [if_pos hi]
        exact hsteady.shortModel hacts hi
      · rw [if_neg hi]
        rfl
    · cases hfirst : s.first host id with
      | none => exact .inl ⟨rfl, rfl⟩
      | some first => exact .inr ⟨first, rfl, hsteady.sameSetup id hacts hs hcomputes first hfirst⟩
  by_cases hi : i.starts host = true
  · rw [(resolved_starts hs hi).1]
    exact hfresh (.inl hi)
  have hi : i.starts host = false := Bool.eq_false_iff.2 hi
  cases hcache : (cacheFile tmp host id).bind s.caches with
  | none =>
    rw [resolved_miss hs hi hcache]
    refine hfresh (.inr fun ⟨hfile, e, he, hes, hestarts⟩ ↦ ?_)
    obtain ⟨file, hfile⟩ := Option.isSome_iff_exists.1 hfile
    rw [hfile, Option.bind_some] at hcache
    have hleft := h.left e he id file hes hestarts hfile
    rw [hcache] at hleft
    cases hleft
  | some setup =>
    rw [resolved_hit hs hi hcache]
    obtain ⟨w, hw, hws, -, rfl⟩ := hit_own h hsteady hacts hs hcache
    obtain ⟨first, hfirst⟩ := first_isSome hw hws
    obtain ⟨hnorm, hfinger, hmodel, -⟩ := h.setup _ first hfirst w hw hws
    exact ⟨hfinger, hmodel, .inr ⟨first, hfirst, hnorm⟩⟩

theorem resolved_cached (h : Invariant sha256 tmp host s) (hsteady : Steady sha256 tmp host s i)
    (hacts : i.acts host = true) (hs : i.session host = some id)
    (hcached : (i.resolved sha256 tmp host s).cached = true) :
    ∃ w ∈ s.handled, w.invocation.session host = some id ∧ w.invocation.starts host = true ∧
      w.setup = (i.resolved sha256 tmp host s).setup := by
  by_cases hi : i.starts host = true
  · rw [(resolved_starts hs hi).2.1] at hcached
    cases hcached
  have hi : i.starts host = false := Bool.eq_false_iff.2 hi
  cases hcache : (cacheFile tmp host id).bind s.caches with
  | none =>
    rw [resolved_miss hs hi hcache] at hcached
    cases hcached
  | some setup =>
    rw [resolved_hit hs hi hcache]
    exact hit_own h hsteady hacts hs hcache

/-- The caches after a process: a start has written its session's. -/
theorem resolved_caches (hs : i.session host = some id) (file : JsString) :
    (i.resolved sha256 tmp host s).caches file =
      if i.starts host = true ∧ cacheFile tmp host id = some file then
        some (i.resolved sha256 tmp host s).setup
      else s.caches file := by
  by_cases hi : i.starts host = true
  · obtain ⟨hsetup, -, hcaches⟩ := @resolved_starts sha256 tmp host s i id hs hi
    rw [hcaches, hsetup]
    simp only [hi, true_and]
  · rw [if_neg fun h ↦ hi h.1]
    have hi : i.starts host = false := Bool.eq_false_iff.2 hi
    cases hcache : (cacheFile tmp host id).bind s.caches with
    | none => rw [resolved_miss hs hi hcache]
    | some setup => rw [resolved_hit hs hi hcache]

variable (sha256 tmp host s i) in
/-- The event a process adds. -/
def Invocation.added : Handled :=
  ⟨i, (i.resolved sha256 tmp host s).setup, (i.resolved sha256 tmp host s).cached,
    registerSetup sha256 i.label (i.resolved sha256 tmp host s).setup.projection⟩

theorem handle_eq {t : Hooks} (h : handle sha256 tmp host s i = some t) :
    (i.acts host = true ∧ t = ⟨(i.resolved sha256 tmp host s).caches,
      s.handled ++ [i.added sha256 tmp host s]⟩) ∨ t = s := by
  rw [handle] at h
  by_cases hacts : i.acts host = true
  · rw [if_pos hacts] at h
    exact .inl ⟨hacts, (Option.some.inj h).symm⟩
  · rw [if_neg hacts] at h
    exact .inr (Option.some.inj h).symm

theorem first_append {caches : Caches} {e : Handled} :
    (⟨caches, s.handled ++ [e]⟩ : Hooks).first host id =
      (s.first host id).or (if e.invocation.session host = some id then some e else none) := by
  rw [Hooks.first, List.find?_append, Hooks.first]
  congr 1
  by_cases h : e.invocation.session host = some id <;> simp [h]

/-- Where an entry of a list stands that had one added to its end. -/
theorem split_of_append_singleton {α : Type} {l pre post : List α} {a x : α}
    (h : l ++ [a] = pre ++ x :: post) : (l = pre ∧ a = x) ∨ ∃ post', l = pre ++ x :: post' := by
  rcases List.eq_nil_or_concat post with rfl | ⟨post', y, rfl⟩
  · obtain ⟨hl, hlast⟩ := List.append_inj' h rfl
    exact .inl ⟨hl, (List.cons.inj hlast).1⟩
  · have hassoc : pre ++ x :: post'.concat y = (pre ++ x :: post') ++ [y] := by
      rw [List.concat_eq_append, List.append_assoc, List.cons_append]
    rw [hassoc] at h
    exact .inr ⟨post', (List.append_inj' h rfl).1⟩

/-- An event that belongs to no session leaves no trace. -/
theorem Invariant.add_none (h : Invariant sha256 tmp host s) {e : Handled}
    (he : e.invocation.session host = none) :
    Invariant sha256 tmp host ⟨s.caches, s.handled ++ [e]⟩ := by
  have hold {e' : Handled} {id : JsString} (hmem : e' ∈ s.handled ++ [e])
      (hs : e'.invocation.session host = some id) : e' ∈ s.handled := by
    rcases List.mem_append.1 hmem with hmem | hmem
    · exact hmem
    · rw [List.mem_singleton.1 hmem, he] at hs
      cases hs
  refine ⟨fun pre e' post id heq hcached hs ↦ ?_, fun a ha b hb id id' hs hs' ↦ ?_,
    fun file setup hfile ↦ ?_, fun w hw id file hs ↦ ?_, fun id first hfirst a ha hs ↦ ?_⟩
  · rcases split_of_append_singleton heq with ⟨-, rfl⟩ | ⟨post', hsplit⟩
    · rw [he] at hs
      cases hs
    · exact h.own pre e' post' id hsplit hcached hs
  · exact h.apart a (hold ha hs) b (hold hb hs') id id' hs hs'
  · obtain ⟨w, hw, hrest⟩ := h.written file setup hfile
    exact ⟨w, List.mem_append_left _ hw, hrest⟩
  · exact h.left w (hold hw hs) id file hs
  · rw [first_append, he, if_neg nofun, Option.or_none] at hfirst
    exact h.setup id first hfirst a (hold ha hs) hs

/-- An event of a session. -/
theorem Invariant.add_some (h : Invariant sha256 tmp host s) (hsteady : Steady sha256 tmp host s i)
    (hacts : i.acts host = true) (hs : i.session host = some id) :
    Invariant sha256 tmp host ⟨(i.resolved sha256 tmp host s).caches,
      s.handled ++ [i.added sha256 tmp host s]⟩ := by
  have hnew : (i.added sha256 tmp host s).invocation.session host = some id := hs
  refine ⟨fun pre e post id' heq hcached hse ↦ ?_, ?_, fun file setup hfile ↦ ?_,
    fun w hw id' file hsw hstarts hfile ↦ ?_, fun id' first hfirst e he hse ↦ ?_⟩
  · rcases split_of_append_singleton heq with ⟨rfl, rfl⟩ | ⟨post', hsplit⟩
    · obtain rfl := Option.some.inj (hs.symm.trans hse)
      exact resolved_cached h hsteady hacts hs hcached
    · exact h.own pre e post' id' hsplit hcached hse
  · -- a start before this one that has the same file is of the same session
    have hbefore {e : Handled} {other : JsString} (he : e ∈ s.handled)
        (hse : e.invocation.session host = some other) (hstarts : e.invocation.starts host = true)
        (hfile : (cacheFile tmp host id).isSome)
        (heq : cacheFile tmp host other = cacheFile tmp host id) : other = id :=
      hsteady.ownFile id hacts hs e he other hse hstarts hfile heq
    intro a ha b hb id₁ id₂ hsa hsb hstartsa hstartsb hfile heq
    rcases List.mem_append.1 ha with ha | ha <;> rcases List.mem_append.1 hb with hb | hb
    · exact h.apart a ha b hb id₁ id₂ hsa hsb hstartsa hstartsb hfile heq
    · rw [List.mem_singleton.1 hb] at hsb
      obtain rfl := Option.some.inj (hs.symm.trans hsb)
      exact hbefore ha hsa hstartsa (heq ▸ hfile) heq
    · rw [List.mem_singleton.1 ha] at hsa
      obtain rfl := Option.some.inj (hs.symm.trans hsa)
      exact (hbefore hb hsb hstartsb hfile heq.symm).symm
    · rw [List.mem_singleton.1 ha] at hsa
      rw [List.mem_singleton.1 hb] at hsb
      exact Option.some.inj (hsa.symm.trans hsb)
  · dsimp only at hfile
    rw [resolved_caches hs] at hfile
    split_ifs at hfile with hwrites
    · exact ⟨_, List.mem_append_right _ (List.mem_singleton.2 rfl), id, hs, hwrites.1, hwrites.2,
        Option.some.inj hfile⟩
    · obtain ⟨w, hw, hrest⟩ := h.written file setup hfile
      exact ⟨w, List.mem_append_left _ hw, hrest⟩
  · dsimp only
    rw [resolved_caches hs]
    split_ifs with hwrites
    · rfl
    · rcases List.mem_append.1 hw with hw | hw
      · exact h.left w hw id' file hsw hstarts hfile
      · rw [List.mem_singleton.1 hw] at hsw hstarts
        obtain rfl := Option.some.inj (hs.symm.trans hsw)
        exact absurd ⟨hstarts, hfile⟩ hwrites
  · obtain ⟨hfinger, hmodel, hsetup⟩ := resolved_setup h hsteady hacts hs
    rw [first_append] at hfirst
    rcases List.mem_append.1 he with he | he
    · obtain ⟨old, hold⟩ := first_isSome he hse
      rw [hold, Option.some_or] at hfirst
      obtain rfl := Option.some.inj hfirst
      exact h.setup id' old hold e he hse
    · obtain rfl := List.mem_singleton.1 he
      obtain rfl := Option.some.inj (hs.symm.trans hse)
      refine ⟨?_, hfinger, hmodel, rfl⟩
      rcases hsetup with ⟨hnone, hcomputed⟩ | ⟨old, hold, hnorm⟩
      · rw [hnone, Option.none_or, if_pos hnew] at hfirst
        obtain rfl := Option.some.inj hfirst
        exact congrArg (fun c : CachedSetup ↦ normalize c.projection) hcomputed
      · rw [hold, Option.some_or] at hfirst
        obtain rfl := Option.some.inj hfirst
        exact hnorm

theorem Invariant.step {t : Hooks} (h : Invariant sha256 tmp host s)
    (hsteady : Steady sha256 tmp host s i) (hstep : handle sha256 tmp host s i = some t) :
    Invariant sha256 tmp host t := by
  rcases handle_eq hstep with ⟨hacts, rfl⟩ | rfl
  · cases hs : i.session host with
    | none =>
      rw [resolved_none hs]
      exact h.add_none hs
    | some id => exact h.add_some hsteady hacts hs
  · exact h

theorem invariant_empty : Invariant sha256 tmp host {} where
  own pre e post _ heq := absurd heq (by simp)
  apart _ h := absurd h List.not_mem_nil
  written _ _ h := absurd h (Option.some_ne_none _).symm
  left _ h := absurd h List.not_mem_nil
  setup _ _ h := absurd h (Option.some_ne_none _).symm

theorem one_session_one_setup (sha256 : JsString → JsString) (tmp : TemporaryDirectory)
    (host : AgentHost) (processes : List Invocation)
    (h : Along (handle sha256 tmp host) (Steady sha256 tmp host) {} processes) :
    Throughout (handle sha256 tmp host) (OneSetup tmp host) {} processes :=
  (throughout_of_along (fun _ _ _ hi hc hs ↦ Invariant.step hi hc hs) invariant_empty h).mono
    fun _ ↦ Invariant.oneSetup

section Samples

def hookProcess (session type mode : JsString) : Invocation where
  input := [(js "session_id", .str session), (js "type", .str type), (js "model", .str (js "m")),
    (js "permission_mode", .str mode)]
  key := some (js "key")
  label := none
  cwd := js "/"
  disk _ := ⟨none, none, none⟩

def everyName : TemporaryDirectory := ⟨some⟩

/-- The session and the setup each event is stamped with, and whether that was read back. -/
def stamps (processes : List Invocation) : Option (List (Option JsString × Option JsString × Bool)) :=
  (run (handle List.reverse everyName .generic) {} processes).map fun s ↦ s.handled.map fun e ↦
    (e.invocation.session .generic, e.context.map (·.fingerprint.setupHash), e.cached)

/-- A session that started and went on. -/
theorem started_session_one_setup :
    Throughout (handle List.reverse everyName .generic) (OneSetup everyName .generic) {}
      [hookProcess (js "s") (js "start") (js "plan"),
        hookProcess (js "s") (js "tool_use") (js "default")] := by
  refine one_session_one_setup List.reverse everyName .generic _
    ⟨?_, fun t ht ↦ ⟨?_, fun _ _ ↦ trivial⟩⟩
  · exact ⟨fun _ _ _ _ he ↦ absurd he List.not_mem_nil,
      fun _ _ _ _ _ he ↦ absurd he (Option.some_ne_none _).symm, fun _ _ ↦ by decide⟩
  · obtain rfl := Option.some.inj ht
    have hsession : (hookProcess (js "s") (js "tool_use") (js "default")).session .generic =
        some (js "s") := by decide
    have hlater : (hookProcess (js "s") (js "tool_use") (js "default")).starts .generic = false := by
      decide
    have hstart : (hookProcess (js "s") (js "start") (js "plan")).session .generic = some (js "s") ∧
        (hookProcess (js "s") (js "start") (js "plan")).starts .generic = true := by decide
    refine ⟨fun id _ hs e he other hother _ _ _ ↦ ?_, fun id _ hs hcomputes ↦ ?_, fun _ hstarts ↦ ?_⟩
    · obtain rfl := List.mem_singleton.1 he
      exact Option.some.inj ((hother.symm.trans hstart.1).trans (hsession.symm.trans hs))
    · obtain rfl := Option.some.inj (hsession.symm.trans hs)
      rw [hlater] at hcomputes
      exact absurd ⟨rfl, _, List.mem_singleton.2 rfl, hstart.1, hstart.2⟩
        (hcomputes.resolve_left Bool.false_ne_true)
    · rw [hlater] at hstarts
      cases hstarts

variable {processes : List Invocation} {l pre post : List (Option JsString × Option JsString × Bool)}
  {id : JsString} {a b : Option JsString}

theorem not_one_of_two_hashes {c d : Bool} (h : stamps processes = some l)
    (ha : (some id, a, c) ∈ l) (hb : (some id, b, d) ∈ l) (hne : a ≠ b) :
    ¬ Throughout (handle List.reverse everyName .generic) (OneSetup everyName .generic) {}
      processes := by
  intro hall
  obtain ⟨s, hs, rfl⟩ := Option.map_eq_some_iff.1 h
  have hone := hall.last hs
  obtain ⟨e, he, hea⟩ := List.mem_map.1 ha
  obtain ⟨e', he', heb⟩ := List.mem_map.1 hb
  rw [Prod.mk.injEq, Prod.mk.injEq] at hea heb
  obtain ⟨first, hfirst⟩ := first_isSome he hea.1
  refine hne ?_
  rw [← hea.2.1, ← heb.2.1, hone.same id first hfirst e he hea.1,
    hone.same id first hfirst e' he' heb.1]

theorem not_one_of_shared (h : stamps processes = some (pre ++ (some id, a, true) :: post))
    (hpre : ∀ x ∈ pre, x.1 ≠ some id) :
    ¬ Throughout (handle List.reverse everyName .generic) (OneSetup everyName .generic) {}
      processes := by
  intro hall
  obtain ⟨s, hs, hmap⟩ := Option.map_eq_some_iff.1 h
  obtain ⟨before, rest, hhandled, rfl, hrest⟩ := List.map_eq_append_iff.1 hmap
  obtain ⟨e, after, rfl, he, -⟩ := List.map_eq_cons_iff.1 hrest
  rw [Prod.mk.injEq, Prod.mk.injEq] at he
  obtain ⟨w, hw, hsession, -⟩ := (hall.last hs).own before e after id hhandled he.2.2 he.1
  exact hpre _ (List.mem_map_of_mem hw) hsession

/-- A session that was joined midway and changes its mode, and two sessions whose names fall
together. -/
theorem sessions_split_and_shared :
    stamps [hookProcess (js "s") (js "tool_use") (js "plan"),
        hookProcess (js "s") (js "tool_use") (js "default")] =
      some [(some (js "s"), some (js "\x7d\x7d\"nalp\":\"edom\","), false),
        (some (js "s"), some (js "\x7d\x7d\"tluafed\":\"edo"), false)] ∧
    stamps [hookProcess (js "a/b") (js "start") (js "plan"),
        hookProcess (js "a_b") (js "tool_use") (js "default")] =
      some [(some (js "a/b"), some (js "\x7d\x7d\"nalp\":\"edom\","), false),
        (some (js "a_b"), some (js "\x7d\x7d\"nalp\":\"edom\","), true)] ∧
    ¬ Throughout (handle List.reverse everyName .generic) (OneSetup everyName .generic) {}
      [hookProcess (js "s") (js "tool_use") (js "plan"),
        hookProcess (js "s") (js "tool_use") (js "default")] ∧
    ¬ Throughout (handle List.reverse everyName .generic) (OneSetup everyName .generic) {}
      [hookProcess (js "a/b") (js "start") (js "plan"),
        hookProcess (js "a_b") (js "tool_use") (js "default")] := by
  have hsplit : stamps [hookProcess (js "s") (js "tool_use") (js "plan"),
        hookProcess (js "s") (js "tool_use") (js "default")] =
      some [(some (js "s"), some (js "\x7d\x7d\"nalp\":\"edom\","), false),
        (some (js "s"), some (js "\x7d\x7d\"tluafed\":\"edo"), false)] := by decide +kernel
  have hshared : stamps [hookProcess (js "a/b") (js "start") (js "plan"),
        hookProcess (js "a_b") (js "tool_use") (js "default")] =
      some [(some (js "a/b"), some (js "\x7d\x7d\"nalp\":\"edom\","), false),
        (some (js "a_b"), some (js "\x7d\x7d\"nalp\":\"edom\","), true)] := by decide +kernel
  refine ⟨hsplit, hshared, ?_, ?_⟩
  · exact not_one_of_two_hashes hsplit List.mem_cons_self
      (List.mem_cons_of_mem _ List.mem_cons_self) (by decide)
  · refine not_one_of_shared (show _ = some ([_] ++ _ :: []) from hshared) fun x hx ↦ ?_
    rw [List.mem_singleton.1 hx]
    decide

end Samples

end Counted.AgentTelemetry
