import Counted.Api.Delivery

namespace Counted.Sdk.Session

open Foundations

variable {s t : Session} {ar : Arithmetic} {o : CountedOptions} {now : JsNumber}

/-- What a step does to what was sent and to what was acknowledged. -/
structure Recalls (s t : Session) (acknowledged : List QueuedEvent) : Prop where
  sent : ∃ l, t.sent = s.sent ++ l
  acknowledged : t.acknowledged = s.acknowledged ++ acknowledged

namespace Recalls

theorem same (hs : t.sent = s.sent) (ha : t.acknowledged = s.acknowledged) : Recalls s t [] :=
  ⟨⟨[], by rw [hs, List.append_nil]⟩, by rw [ha, List.append_nil]⟩

theorem sending {l : List (List QueuedEvent)} (hs : t.sent = s.sent ++ l)
    (ha : t.acknowledged = s.acknowledged) : Recalls s t [] :=
  ⟨⟨l, hs⟩, by rw [ha, List.append_nil]⟩

end Recalls

theorem flush_recalls (o : CountedOptions) (s : Session) (now : JsNumber) :
    Recalls s (s.flush o now) [] := by
  rw [Session.flush, drain]
  dsimp only
  split_ifs
  · exact .same rfl rfl
  · exact .same rfl rfl
  · exact .same rfl rfl
  · exact .same rfl rfl
  · exact .sending rfl rfl

theorem track_recalls (o : CountedOptions) (s : Session) (event : QueuedEvent) (now : JsNumber) :
    Recalls s (s.track o event now) [] := by
  have flushed (u : Session) (hs : u.sent = s.sent) (ha : u.acknowledged = s.acknowledged) :
      Recalls s (u.flush o now) [] := by
    obtain ⟨⟨l, hl⟩, hf⟩ := flush_recalls o u now
    rw [List.append_nil] at hf
    exact .sending (hl.trans (by rw [hs])) (hf.trans ha)
  rw [Session.track]
  dsimp only
  split_ifs
  · exact .same rfl rfl
  · exact flushed _ rfl rfl
  · exact .same rfl rfl
  · exact flushed _ rfl rfl
  · exact .same rfl rfl

theorem hidden_recalls (o : CountedOptions) (s : Session) (sent : Bool) :
    Recalls s (s.hidden o sent) [] := by
  rw [Session.hidden]
  dsimp only
  split_ifs
  · exact .same rfl rfl
  · exact .sending rfl rfl
  · exact .sending rfl rfl

theorem receipt_recalls (s : Session) (receipt : IngestReceipt) :
    (s.reportReceipt receipt).sent = s.sent ∧
      (s.reportReceipt receipt).acknowledged = s.acknowledged := by
  have hr : (s.reportRejected receipt).sent = s.sent ∧
      (s.reportRejected receipt).acknowledged = s.acknowledged := by
    rw [reportRejected]
    split_ifs <;> exact ⟨rfl, rfl⟩
  rw [reportReceipt]
  cases receipt.quota with
  | none => exact hr
  | some quota =>
    rw [reportQuota]
    split_ifs
    · exact hr
    · exact hr

/-- Only a `2xx` acknowledges anything, and what it acknowledges is the batch in flight. -/
theorem reply_recalls {batch : List QueuedEvent} (reply : Reply) (now random : JsNumber) :
    Recalls s ({ s with inFlight := none }.handle ar batch now random (outcomeOf batch reply))
      (if reply.isFailure then [] else batch) := by
  have lost (detail : JsString) (status : ℕ) (wait : Option JsNumber) : Recalls s
      ({ s with inFlight := none }.handle ar batch now random (.retry status wait detail)) [] := by
    rw [Session.handle]
    cases wait <;> exact .same rfl rfl
  cases reply with
  | ok receipt =>
    have hr := receipt_recalls
      { s with inFlight := none, attempt := 0, acknowledged := s.acknowledged ++ batch }
      (receipt.getD ⟨batch.length, 0, 0, [], none⟩)
    exact ⟨⟨[], hr.1.trans (List.append_nil _).symm⟩, hr.2⟩
  | problem status retryable detail wait =>
    have hf : (Reply.problem status retryable detail wait).isFailure = true := rfl
    rw [outcomeOf, if_pos hf]
    split_ifs
    · exact lost _ _ _
    · rw [Session.handle]
      split_ifs <;> exact .same rfl rfl
  | failed detail => exact lost _ _ _

/-- What a step acknowledges. -/
def hears (s : Session) : ClientAction → List QueuedEvent
  | .reply reply _ _ => if reply.isFailure then [] else s.inFlight.getD []
  | .track .. | .flush _ | .timer _ | .hidden _ | .shutdown _ => []

theorem step_recalls {a : ClientAction} (h : s.step ar o a = some t) :
    Recalls s t (s.hears a) := by
  cases a with
  | track event now => exact Option.some.inj h ▸ track_recalls o s event now
  | flush now => exact Option.some.inj h ▸ flush_recalls o s now
  | timer now =>
    rw [Session.step] at h
    split_ifs at h
    exact Option.some.inj h ▸ flush_recalls o s now
  | hidden sent =>
    rw [Session.step] at h
    split_ifs at h
    exact Option.some.inj h ▸ hidden_recalls o s sent
  | shutdown now =>
    obtain ⟨hs, ha⟩ := flush_recalls o { s with closed := true, timer := false } now
    exact Option.some.inj h ▸ ⟨hs, ha⟩
  | reply reply now random =>
    obtain ⟨batch, hb, rfl⟩ := Option.map_eq_some_iff.1 h
    have hr := @reply_recalls s ar batch reply now random
    rw [hears, hb, Option.getD_some]
    exact hr

end Counted.Sdk.Session

namespace Counted.Sdk.QueuedEvent

open Ingestion

variable (e : QueuedEvent)

theorem get_occurredAt : JsObject.get e.fields (js "occurredAt") = some (.str e.occurredAt) := by
  obtain ⟨name, visitId, userId, occurredAt, key, properties, system⟩ := e
  cases userId <;> rfl

theorem get_idempotencyKey :
    JsObject.get e.fields (js "idempotencyKey") = some (.str e.idempotencyKey) := by
  obtain ⟨name, visitId, userId, occurredAt, key, properties, system⟩ := e
  cases userId <;> rfl

variable {e}

section

variable {rt : Runtime} {policy : AdmissionPolicy} {batch : IngestBatch} {index : ℕ}
  {f : AdmittedEvent}

theorem admitted_at (h : AdmittedFrom rt policy batch e.fields index f) :
    ∃ t : ℤ, instantFromISO rt e.occurredAt = some t ∧ f.occurredAt = t := by
  have hat := h.occurredAt
  rw [get_occurredAt, parseOccurredAt] at hat
  cases ht : instantFromISO rt e.occurredAt with
  | none =>
    rw [ht] at hat
    cases hat
  | some t =>
    rw [ht] at hat
    exact ⟨t, rfl, (Except.ok.inj hat).symm⟩

/-- What an event is admitted as has the name, the visit and the key it was tracked with. -/
theorem admitted_as (h : admitEvent rt policy batch e.json index = .ok f) :
    f.name = e.name ∧ f.visit = e.visitId ∧ f.dedupKey = e.filedUnder rt := by
  obtain ⟨fields, hfields, hf⟩ := admitEvent_ok h
  obtain rfl := Json.obj.inj hfields
  have hname : some (Json.str e.name) = some (.str f.name) := hf.name
  have hvisit : some (Json.str e.visitId) = some (.str f.visit) := hf.visit
  obtain ⟨t, ht, hat⟩ := admitted_at hf
  obtain ⟨key, hread, hkey⟩ := hf.key
  rw [get_idempotencyKey, readIdempotencyKey] at hread
  refine ⟨(Json.str.inj (Option.some.inj hname)).symm, (Json.str.inj (Option.some.inj hvisit)).symm, ?_⟩
  rw [hkey, ← Except.ok.inj hread, hat, filedUnder, ht]
  by_cases hempty : e.idempotencyKey = []
  · simp [hempty]
  · rw [if_neg hempty, if_pos (List.length_pos_of_ne_nil hempty)]
    rfl

/-- An event with a key of its own is filed under some key. -/
theorem admitted_keyed (h : admitEvent rt policy batch e.json index = .ok f)
    (hk : e.idempotencyKey ≠ []) : ∃ k, e.filedUnder rt = some k := by
  obtain ⟨fields, hfields, hf⟩ := admitEvent_ok h
  obtain rfl := Json.obj.inj hfields
  obtain ⟨t, ht, -⟩ := admitted_at hf
  exact ⟨_, by rw [filedUnder, if_neg hk, ht, Option.map_some]⟩

end

end Counted.Sdk.QueuedEvent

namespace Counted.Analytics

open Foundations Ingestion

variable {digest : ProjectId → DedupKey → Digest} {db : Db} {c : Call} {p : ProjectId}

theorem writeBatch_ledger (hdb : db.Consistent digest) :
    db.ledger ⊆ (writeBatch digest db c).1.ledger := by
  rcases writeBatch_cases (c := c) hdb with ⟨-, h, -⟩ | ⟨-, h, -⟩
  · rw [h]
    exact Finset.subset_union_left
  · rw [h]

/-- A call that succeeds leaves the keys of its batch in the ledger, new or not. -/
theorem writeBatch_files (hdb : db.Consistent digest) {receipt : WriteReceipt}
    (h : (writeBatch digest db c).2 = .ok receipt) {f : AdmittedEvent} (hf : f ∈ c.events)
    {k : DedupKey} (hk : f.dedupKey = some k) :
    (c.project, digest c.project k) ∈ (writeBatch digest db c).1.ledger := by
  rcases writeBatch_cases (c := c) hdb with ⟨-, hs, -⟩ | ⟨-, -, ⟨cause, hr⟩ | ⟨h0, -⟩⟩
  · rw [hs, Db.store]
    apply Finset.mem_union_right
    rw [List.mem_toFinset]
    apply List.mem_map_of_mem
    exact List.mem_filterMap.2 ⟨f, hf, by rw [digestOf, hk, Option.map_some]⟩
  · rw [hr] at h
    cases h
  · rw [h0] at hf
    cases hf

/-- No two events of a project are stored under one key. -/
theorem keys_nodup (digest : ProjectId → DedupKey → Digest) (calls : List Call) (p : ProjectId) :
    (((serve digest .empty calls).of p).filterMap (·.dedupKey)).Nodup := by
  have hnodup := (collapse_keys (f := digestOf digest p) [] (accepted digest p .empty calls)).1
  rw [← of_serve_empty] at hnodup
  apply List.Nodup.of_map (digest p)
  rw [List.map_filterMap]
  exact hnodup

end Counted.Analytics

namespace Counted.Api

open Foundations Ingestion Analytics Sdk

/-- A request that carried a batch of the client submits that batch, to the client's project. -/
def Carries (d : Pipeline) (sent : List (List QueuedEvent)) (batch : IngestBatch)
    (post : Option (List QueuedEvent)) : Prop :=
  ∀ events, post = some events →
    events ∈ sent ∧ batch.project = d.project ∧ batch.events = events.map QueuedEvent.json

namespace World

variable (d : Pipeline) (w : World)

/-- A request with the event in it was told that it is committed. -/
def Heard (e : QueuedEvent) : Prop :=
  ∃ id events accepted deduplicated rejected commit, w.posts[id]? = some (some events) ∧
    e ∈ events ∧ (id, .ack (.committed accepted deduplicated rejected commit)) ∈ w.server.settled

/-- The receipt of a request with the event in it names the event as rejected. -/
def TurnedDown (e : QueuedEvent) : Prop :=
  ∃ id events i accepted deduplicated rejected commit, w.posts[id]? = some (some events) ∧
    events[i]? = some e ∧ i ∈ rejected.map RejectedEvent.index ∧
      (id, .ack (.committed accepted deduplicated rejected commit)) ∈ w.server.settled

/-- A group has been written, and the ledger holds its keys. -/
def Filed (g : Group) : Prop :=
  (∃ c ∈ w.calls, c.project = g.project ∧ c.events = g.events) ∧
    ∀ f ∈ g.events, ∀ k, f.dedupKey = some k → (g.project, d.digest g.project k) ∈ w.db.ledger

structure Inv : Prop where
  client : w.client.Inv
  server : ∃ actions, run (State.step d.commit) .initial actions = some w.server
  carried : List.Forall₂ (Carries d w.client.sent) w.server.submits w.posts
  heard : ∀ e ∈ w.client.acknowledged, w.Heard e
  db : w.db = serve d.digest .empty w.calls
  called : ∀ c ∈ w.calls, ∃ b ∈ w.server.commits,
    c.project = b.group.project ∧ c.events = b.group.events
  stored : ∀ id receipt, (id, .ok receipt) ∈ w.results →
    ∃ b, w.server.commits[id]? = some b ∧ w.Filed d b.group
  answered : ∀ id c receipt, w.server.commits[id]? = some c → c.answer = some (.ok receipt) →
    (id, .ok receipt) ∈ w.results

variable {d w} {v : World} {a : WorldAction}

theorem of_guard {p : Prop} [Decidable p] {u : Unit} (h : (guard p : Option Unit) = some u) : p := by
  by_contra hn
  simp [guard, hn] at h

theorem initial_inv : (initial d).Inv d where
  client := Session.initial_inv d.options
  server := ⟨[], rfl⟩
  carried := .nil
  heard := by simp [initial, Session.initial]
  db := rfl
  called := by simp [initial]
  stored := by simp [initial]
  answered := by simp [initial, State.initial]

/-- The client has gone on, and acknowledges only what it was told. -/
theorem Inv.client_step (h : w.Inv d) {b : ClientAction} {c : Session}
    (hs : w.client.step d.arithmetic d.options b = some c)
    (hb : ∀ e ∈ w.client.hears b, w.Heard e) : Inv d { w with client := c } where
  client := Session.step_inv h.client hs
  server := h.server
  carried := by
    obtain ⟨l, hl⟩ := (Session.step_recalls hs).sent
    refine h.carried.imp fun batch post hc events he ↦ ?_
    obtain ⟨hsent, hrest⟩ := hc events he
    exact ⟨hl ▸ List.mem_append_left l hsent, hrest⟩
  heard e he := by
    have hacknowledged := (Session.step_recalls hs).acknowledged
    dsimp only at he
    rw [hacknowledged] at he
    rcases List.mem_append.1 he with he | he
    · exact h.heard e he
    · exact hb e he
  db := h.db
  called := h.called
  stored := h.stored
  answered := h.answered

/-- The coalescer has gone on, and hears of the sink only what the sink did. -/
theorem Inv.server_step (h : w.Inv d) {b : Action} {t : State}
    (hs : w.server.step d.commit b = some t) {new : List (Option (List QueuedEvent))}
    (hn : List.Forall₂ (Carries d w.client.sent) b.submitted new)
    (hb : ∀ id receipt, b = .sinkAnswer id (.ok receipt) → (id, .ok receipt) ∈ w.results) :
    Inv d { w with server := t, posts := w.posts ++ new } where
  client := h.client
  server := by
    obtain ⟨actions, hr⟩ := h.server
    refine ⟨actions ++ [b], ?_⟩
    rw [run_append, hr]
    simp [run, hs]
  carried := by
    dsimp only
    rw [(step_recalls hs).submits]
    exact List.rel_append h.carried hn
  heard e he := by
    obtain ⟨id, events, accepted, deduplicated, rejected, commit, hp, hm, hc⟩ := h.heard e he
    obtain ⟨l, hl⟩ := (step_recalls hs).settled
    exact ⟨id, events, accepted, deduplicated, rejected, commit, getElem?_append_of_eq_some hp, hm,
      hl ▸ List.mem_append_left l hc⟩
  db := h.db
  called c hc := by
    obtain ⟨b, hb, hproject, hevents⟩ := h.called c hc
    obtain ⟨i, hi⟩ := List.mem_iff_getElem?.1 hb
    obtain ⟨b', hb', hg⟩ := step_group hs hi
    exact ⟨b', List.mem_of_getElem? hb', hg ▸ hproject, hg ▸ hevents⟩
  stored id receipt hr := by
    obtain ⟨b, hb, hf⟩ := h.stored id receipt hr
    obtain ⟨b', hb', hg⟩ := step_group hs hb
    exact ⟨b', hb', hg ▸ hf⟩
  answered id c receipt hc ha := by
    rcases step_answer hs hc ha with hx | ⟨c', hc', ha'⟩
    · exact hb id receipt hx
    · exact h.answered id c' receipt hc' ha'

theorem Inv.server_only (h : w.Inv d) {b : Action} {t : State}
    (hs : w.server.step d.commit b = some t) (hn : b.submitted = [])
    (hb : ∀ id receipt, b = .sinkAnswer id (.ok receipt) → (id, .ok receipt) ∈ w.results) :
    Inv d { w with server := t } := by
  have hnone : List.Forall₂ (Carries d w.client.sent) b.submitted [] := by
    rw [hn]
    exact .nil
  have hv := h.server_step hs hnone hb
  rwa [List.append_nil] at hv

theorem write_some {id : ℕ} {faults : Faults} (h : w.write d id faults = some v) :
    ∃ b, w.server.commits[id]? = some b ∧
      let call : Call := ⟨b.group.project, b.group.events, faults⟩
      v = { w with
        db := (writeBatch d.digest w.db call).1
        calls := w.calls ++ [call]
        results := w.results ++ [(id, (writeBatch d.digest w.db call).2)] } := by
  rw [write] at h
  obtain ⟨b, hb, h⟩ := Option.bind_eq_some_iff.1 h
  obtain ⟨-, -, h⟩ := Option.bind_eq_some_iff.1 h
  exact ⟨b, hb, (Option.some.inj h).symm⟩

/-- A transaction takes place between two steps of the coalescer. -/
theorem Inv.write (h : w.Inv d) {id : ℕ} {faults : Faults} (hw : w.write d id faults = some v) :
    v.Inv d := by
  obtain ⟨b, hb, rfl⟩ := write_some hw
  have hdb : w.db.Consistent d.digest := h.db ▸ serve_consistent empty_consistent
  refine ⟨h.client, h.server, h.carried, h.heard, ?_, ?_, ?_, ?_⟩
  · have hserve := congrArg (fun db ↦ (writeBatch d.digest db
      ⟨b.group.project, b.group.events, faults⟩).1) h.db
    rw [serve, List.foldl_append]
    exact hserve
  · intro c hc
    rcases List.mem_append.1 hc with hc | hc
    · exact h.called c hc
    · rw [List.mem_singleton.1 hc]
      exact ⟨b, List.mem_of_getElem? hb, rfl, rfl⟩
  · intro i receipt hr
    rcases List.mem_append.1 hr with hr | hr
    · obtain ⟨b', hb', ⟨c, hc, hcg⟩, hf⟩ := h.stored i receipt hr
      exact ⟨b', hb', ⟨c, List.mem_append_left _ hc, hcg⟩,
        fun f hm k hk ↦ writeBatch_ledger hdb (hf f hm k hk)⟩
    · obtain ⟨rfl, hok⟩ := Prod.mk.inj (List.mem_singleton.1 hr)
      exact ⟨b, hb, ⟨_, List.mem_append_right _ (List.mem_singleton_self _), rfl, rfl⟩,
        fun f hm k hk ↦ writeBatch_files hdb hok.symm hm hk⟩
  · intro i c receipt hc ha
    exact List.mem_append_left _ (h.answered i c receipt hc ha)

theorem batchOf_ok {deps : IngestDeps} {credential : Projects.VerifiedCredential}
    {request : Request} {at' : Instant} {batch : IngestBatch} {events : List Json}
    (hb : request.body = some (.obj [(js "events", .arr events)]))
    (h : deps.batchOf credential request at' = .ok batch) :
    credential.project = some batch.project ∧ batch.events = events := by
  rw [IngestDeps.batchOf, hb] at h
  split at h
  · cases h
  · rename_i project hp
    split_ifs at h
    have hget : (Json.obj [(js "events", Json.arr events)]).plainObject.bind
        (JsObject.get · (js "events")) = some (.arr events) := rfl
    dsimp only at h
    rw [hget] at h
    dsimp only at h
    split at h
    · cases h
    · cases h
      exact ⟨(Option.filter_eq_some_iff.1 hp).1, rfl⟩

/-- A request that carries a batch the client sent submits that batch. -/
theorem Inv.arrive (h : w.Inv d) {k : ℕ} {credential : Projects.VerifiedCredential}
    {forwardedFor : Option JsString} {bytes : ℕ} {at' : Instant}
    (ha : w.arrive d k credential forwardedFor bytes at' = some v) : v.Inv d := by
  rw [World.arrive] at ha
  obtain ⟨events, hk, ha⟩ := Option.bind_eq_some_iff.1 ha
  obtain ⟨_, hproject, ha⟩ := Option.bind_eq_some_iff.1 ha
  obtain ⟨batch, hbatch, ha⟩ := Option.bind_eq_some_iff.1 ha
  obtain ⟨t, ht, ha⟩ := Option.bind_eq_some_iff.1 ha
  obtain rfl := Option.some.inj ha
  refine h.server_step ht (.cons ?_ .nil) nofun
  intro events' he
  obtain rfl := Option.some.inj he
  have hok : d.ingest.batchOf credential ⟨forwardedFor, bytes, some (bodyOf events)⟩ at' =
      .ok batch := by
    cases hb : d.ingest.batchOf credential ⟨forwardedFor, bytes, some (bodyOf events)⟩ at' with
    | error e =>
      rw [hb] at hbatch
      cases hbatch
    | ok b =>
      rw [hb] at hbatch
      exact congrArg _ (Option.some.inj hbatch)
  obtain ⟨hp, hevents⟩ := batchOf_ok rfl hok
  exact ⟨List.mem_of_getElem? hk, Option.some.inj (hp.symm.trans (of_guard hproject)), hevents⟩

theorem Inv.answer (h : w.Inv d) {id : ℕ} (ha : w.answer d id = some v) : v.Inv d := by
  rw [World.answer] at ha
  obtain ⟨⟨i, r⟩, hr, ha⟩ := Option.bind_eq_some_iff.1 ha
  obtain ⟨t, ht, ha⟩ := Option.bind_eq_some_iff.1 ha
  obtain rfl := Option.some.inj ha
  obtain ⟨hm, rfl⟩ := Keyed.lookup_eq_some hr
  refine h.server_only ht rfl fun j receipt hj ↦ ?_
  obtain ⟨rfl, hans⟩ := Action.sinkAnswer.inj hj
  cases r with
  | ok receipt' =>
    obtain rfl := SinkAnswer.ok.inj hans
    exact hm
  | error failure => cases hans

theorem Inv.reply (h : w.Inv d) {r : Reply} {now random : JsNumber}
    (hr : w.reply d r now random = some v)
    (hh : r.isFailure = false → ∀ events, w.client.inFlight = some events → ∀ e ∈ events, w.Heard e) :
    v.Inv d := by
  rw [World.reply] at hr
  obtain ⟨c, hc, hr⟩ := Option.bind_eq_some_iff.1 hr
  obtain rfl := Option.some.inj hr
  refine h.client_step hc fun e he ↦ ?_
  rw [Session.hears] at he
  split_ifs at he with hf
  · cases he
  · cases hi : w.client.inFlight with
    | none =>
      rw [hi] at he
      cases he
    | some events =>
      rw [hi] at he
      exact hh (by simpa using hf) events hi e he

theorem Inv.hear (h : w.Inv d) {id : ℕ} {crossOrigin : Bool} {now random : JsNumber}
    (hr : w.hear d id crossOrigin now random = some v) : v.Inv d := by
  rw [World.hear] at hr
  obtain ⟨events, hp, hr⟩ := Option.bind_eq_some_iff.1 hr
  obtain ⟨_, hflight, hr⟩ := Option.bind_eq_some_iff.1 hr
  obtain ⟨⟨i, o⟩, ho, hreply⟩ := Option.bind_eq_some_iff.1 hr
  obtain ⟨hm, rfl⟩ := Keyed.lookup_eq_some ho
  refine h.reply hreply fun hok events' he e hin ↦ ?_
  obtain rfl := Option.some.inj (he.symm.trans (of_guard hflight))
  have hpost : w.posts[i]? = some (some events') := Option.join_eq_some_iff.1 hp
  -- of what the server says, only a receipt is no failure
  cases o with
  | threw detail => cases hok
  | ack ack =>
    cases ack with
    | refused error rejected => cases hok
    | committed accepted deduplicated rejected commit =>
      exact ⟨i, events', accepted, deduplicated, rejected, commit, hpost, hin, hm⟩

theorem step_inv (h : w.Inv d) (hs : w.step d a = some v) : v.Inv d := by
  cases a with
  | client b =>
    rw [step] at hs
    obtain ⟨_, hown, hs⟩ := Option.bind_eq_some_iff.1 hs
    obtain ⟨c, hc, hs⟩ := Option.bind_eq_some_iff.1 hs
    obtain rfl := Option.some.inj hs
    refine h.client_step hc fun e he ↦ ?_
    cases b with
    | reply => cases hown
    | track | flush | timer | hidden | shutdown => cases he
  | arrive k credential forwardedFor bytes at' => exact h.arrive hs
  | foreign batch =>
    rw [step] at hs
    obtain ⟨t, ht, hs⟩ := Option.bind_eq_some_iff.1 hs
    obtain rfl := Option.some.inj hs
    exact h.server_step ht (.cons nofun .nil) nofun
  | server b =>
    rw [step] at hs
    obtain ⟨_, hinternal, hs⟩ := Option.bind_eq_some_iff.1 hs
    obtain ⟨t, ht, hs⟩ := Option.bind_eq_some_iff.1 hs
    obtain rfl := Option.some.inj hs
    cases b with
    | submit | sinkAnswer => cases hinternal
    | quotaAnswer | tick | drain | drainResume | recordAnswer | finish =>
      exact h.server_only ht rfl nofun
  | write id faults => exact h.write hs
  | answer id => exact h.answer hs
  | hear id crossOrigin now random => exact h.hear hs
  | fail r now random =>
    rw [step] at hs
    obtain ⟨_, hf, hs⟩ := Option.bind_eq_some_iff.1 hs
    refine h.reply hs fun hok ↦ ?_
    rw [hok] at hf
    cases hf

theorem reached (d : Pipeline) {actions : List WorldAction}
    (h : run (World.step d) (initial d) actions = some w) : w.Inv d :=
  run_invariant (fun _ _ _ hi hs ↦ step_inv hi hs) initial_inv h

variable (d w) in
/-- An event of a project that came with somebody else's request. -/
def Foreign (p : ProjectId) (f : AdmittedEvent) : Prop :=
  ∃ (id : ℕ) (batch : IngestBatch) (index : ℕ) (raw : Json),
    w.posts[id]? = some none ∧ w.server.submits[id]? = some batch ∧
    batch.project = p ∧ batch.events[index]? = some raw ∧
      admitEvent d.commit.runtime d.commit.admission batch raw index = .ok f

theorem forall₂_getElem? {α β : Type} {R : α → β → Prop} {l : List α} {m : List β}
    (h : List.Forall₂ R l m) (i : ℕ) :
    (∃ a b, l[i]? = some a ∧ m[i]? = some b ∧ R a b) ∨ l[i]? = none ∧ m[i]? = none := by
  induction h generalizing i with
  | nil => exact .inr ⟨rfl, rfl⟩
  | cons hab _ ih =>
    cases i with
    | zero => exact .inl ⟨_, _, rfl, rfl, hab⟩
    | succ i => exact ih i

/-- Nothing is stored that was not sent, and what the client sent is stored as it was tracked. -/
theorem Inv.origin (h : w.Inv d) {p : ProjectId} {f : AdmittedEvent} (hf : f ∈ w.db.of p) :
    w.Foreign d p f ∨ p = d.project ∧ ∃ e ∈ w.client.tracked,
      f.name = e.name ∧ f.visit = e.visitId ∧ f.dedupKey = e.filedUnder d.commit.runtime := by
  rw [h.db, of_serve_empty] at hf
  obtain ⟨c, hc, rfl, hfc⟩ := mem_accepted ((collapse_sublist _ _).subset hf)
  obtain ⟨b, hb, hproject, hevents⟩ := h.called c hc
  obtain ⟨actions, hr⟩ := h.server
  rw [hevents] at hfc
  obtain ⟨id, batch, hid, hbp, index, raw, hi, hok⟩ := group_read (reached_inv hr) hb hfc
  rcases forall₂_getElem? h.carried id with ⟨batch', post, hid', hpost, hcar⟩ | ⟨hn, -⟩
  · obtain rfl := Option.some.inj (hid.symm.trans hid')
    cases post with
    | none => exact .inl ⟨id, batch, index, raw, hpost, hid, hbp.trans hproject.symm, hi, hok⟩
    | some events =>
      obtain ⟨hsent, hd, hjson⟩ := hcar events rfl
      rw [hjson, List.getElem?_map] at hi
      obtain ⟨e, he, rfl⟩ := Option.map_eq_some_iff.1 hi
      have htracked : e ∈ w.client.tracked :=
        (h.client.unchanged events hsent).subset (List.mem_of_getElem? he)
      exact .inr ⟨(hproject.trans hbp.symm).trans hd, e, htracked, QueuedEvent.admitted_as hok⟩
  · rw [hid] at hn
    cases hn

/-- What became of an event that the client was told is stored. -/
theorem Inv.acknowledged (h : w.Inv d)
    (hd : Set.InjOn (d.digest d.project) (keysUsed d.project w.calls)) {e : QueuedEvent}
    (he : e ∈ w.client.acknowledged) (hk : e.idempotencyKey ≠ []) :
    (∃ k, e.filedUnder d.commit.runtime = some k ∧
      ∃ f ∈ w.db.of d.project, f.dedupKey = some k) ∨ w.TurnedDown e := by
  obtain ⟨id, events, accepted, deduplicated, rejected, commit, hpost, hm, hc⟩ := h.heard e he
  obtain ⟨actions, hr⟩ := h.server
  obtain ⟨i, hi⟩ := List.mem_iff_getElem?.1 hm
  rcases forall₂_getElem? h.carried id with ⟨batch, post, hid, hpost', hcar⟩ | ⟨-, hn⟩
  · obtain rfl := Option.some.inj (hpost.symm.trans hpost')
    obtain ⟨-, hproject, hjson⟩ := hcar events rfl
    have hraw : batch.events[i]? = some e.json := by
      rw [hjson, List.getElem?_map, hi, Option.map_some]
    rcases committed_covers (reached_inv hr) hc hid hraw with
      ⟨f, hok, j, c, receipt, hj, ha, hcp, g, hg, hgf⟩ | hrej
    · left
      obtain ⟨k, hfiled⟩ := QueuedEvent.admitted_keyed hok hk
      have hfk : f.dedupKey = some k := (QueuedEvent.admitted_as hok).2.2.trans hfiled
      have hgk : g.dedupKey = some k := by
        rcases hgf with rfl | ⟨hgf, -⟩
        · exact hfk
        · exact hgf.trans hfk
      obtain ⟨b, hb, ⟨call, hcall, hcallp, hcalle⟩, hfiles⟩ :=
        h.stored j receipt (h.answered j c receipt hj ha)
      obtain rfl := Option.some.inj (hb.symm.trans hj)
      have hled := hfiles g hg k hgk
      have hp : call.project = d.project := hcallp.trans (hcp.trans hproject)
      have hinj : Set.InjOn (d.digest call.project) (keysUsed call.project (call :: w.calls)) := by
        rw [hp]
        apply hd.mono
        rintro k' ⟨c', hc', hrest⟩
        rcases List.mem_cons.1 hc' with rfl | hc'
        · exact ⟨c', hcall, hrest⟩
        · exact ⟨c', hc', hrest⟩
      rw [← hcallp, h.db, mem_ledger_iff hinj (hcalle ▸ hg) hgk, hp, ← h.db] at hled
      exact ⟨k, hfiled, hled⟩
    · exact .inr ⟨id, events, i, accepted, deduplicated, rejected, commit, hpost, hi, hrej, hc⟩
  · rw [hpost] at hn
    cases hn

/-- A client that sends each event as it is tracked. -/
def samplePipeline : Pipeline where
  ingest := IngestDeps.sampleIngest
  commit.runtime := { sampleDeps.runtime with dateParse _ := some 0 }
  digest _ k := k
  arithmetic := nodeArithmetic
  options := ⟨0, 1, 10⟩
  project := js "p"

def ingestKey : Projects.VerifiedCredential :=
  ⟨js "key", .ingest, js "w", some (js "p"), [.eventsWrite], js "issuer"⟩

/-- The first write is carried out and nobody hears of it, so the client sends its event again. -/
def retriedRun : List WorldAction :=
  [.client (.track (Session.sampleEvent (js "a")) (0 : ℤ)), .arrive 0 ingestKey none 100 0,
    .server (.quotaAnswer 0 .allowed 0 0), .server (.tick 20),
    .write 0 { commit := some (true, ⟨[], js "Connection terminated"⟩) }, .answer 0,
    .hear 0 false (30 : ℤ) (0 : ℤ), .server (.finish 0 31), .client (.flush (40 : ℤ)),
    .arrive 1 ingestKey none 100 50, .server (.quotaAnswer 1 .allowed 50 50), .server (.tick 70),
    .write 1 {}, .answer 1, .server (.recordAnswer 1 none), .hear 1 false (80 : ℤ) (0 : ℤ)]

end World

end Counted.Api
