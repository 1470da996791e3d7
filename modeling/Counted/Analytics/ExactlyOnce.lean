import Counted.Analytics.Sink
import Counted.Ingestion.Receipts

namespace Counted.Analytics

open Foundations Ingestion

variable (digest : ProjectId → DedupKey → Digest)

def digestOf (p : ProjectId) (e : AdmittedEvent) : Option Digest := e.dedupKey.map (digest p)

/-- The events stored for a project. -/
def Db.of (db : Db) (p : ProjectId) : List AdmittedEvent :=
  (db.rows.filter (·.project = p)).map (·.event)

/-- The ledger holds the keys of what is stored, and no others. -/
def Db.Consistent (db : Db) : Prop :=
  ∀ p d, (p, d) ∈ db.ledger ↔ d ∈ (db.of p).filterMap (digestOf digest p)

/-- What a call stores, each event with its position in the batch. -/
def kept (db : Db) (c : Call) : List (AdmittedEvent × ℕ) :=
  (collapse (fun p : AdmittedEvent × ℕ ↦ digestOf digest c.project p.1)
    ((db.of c.project).filterMap (digestOf digest c.project)) c.events.zipIdx).unique

def Db.store (db : Db) (c : Call) : Db where
  ledger := db.ledger ∪ ((c.events.filterMap (digestOf digest c.project)).map (c.project, ·)).toFinset
  rows := db.rows ++ (kept digest db c).map (fun p ↦ ⟨c.project, p.1⟩)

def receiptOf (db : Db) (c : Call) : WriteReceipt where
  written := ((kept digest db c).length : ℤ)
  writtenIndices := (kept digest db c).map (fun p ↦ ((p.2 : ℤ) : JsNumber))
  deduplicated := ((c.events.length : ℤ) - (kept digest db c).length : ℤ)

/-- Whether the transaction of a call takes effect. -/
def commits (db : Db) (c : Call) : Bool :=
  c.events.length != 0 && c.faults.connect.isNone && (transaction digest db c).isOk &&
    c.faults.commit.all (·.1)

variable {digest} {db : Db} {c : Call} {p : ProjectId}

theorem pending_eq {g : DedupKey → Digest} {fresh seen : List Digest} {l : List AdmittedEvent}
    {i : ℕ} (hn : fresh.Nodup)
    (hf : ∀ d ∈ l.filterMap (fun e ↦ e.dedupKey.map g), d ∈ fresh ↔ d ∉ seen) :
    pending g fresh i l =
      (collapse (fun p : AdmittedEvent × ℕ ↦ p.1.dedupKey.map g) seen (l.zipIdx i)).unique := by
  induction l generalizing fresh seen i with
  | nil => rfl
  | cons e l ih =>
    rw [List.zipIdx_cons]
    unfold pending
    cases h : e.dedupKey.map g with
    | none =>
      rw [collapse_none (f := fun p : AdmittedEvent × ℕ ↦ p.1.dedupKey.map g) (a := (e, i)) h]
      simp only [List.filterMap_cons, h] at hf
      exact congrArg _ (ih hn hf)
    | some d =>
      simp only [List.filterMap_cons, h] at hf
      have hd := hf d List.mem_cons_self
      dsimp only
      split_ifs with hm
      · rw [collapse_fresh (f := fun p : AdmittedEvent × ℕ ↦ p.1.dedupKey.map g) (a := (e, i)) h
          (hd.1 hm)]
        refine congrArg _ (ih (hn.erase d) fun d' hd' ↦ ?_)
        rw [hn.mem_erase_iff, hf d' (List.mem_cons_of_mem d hd'), List.mem_cons, not_or]
      · rw [collapse_seen (f := fun p : AdmittedEvent × ℕ ↦ p.1.dedupKey.map g) (a := (e, i)) h
          (not_not.1 fun hs ↦ hm (hd.2 hs))]
        exact ih hn (fun d' hd' ↦ hf d' (List.mem_cons_of_mem d hd'))

theorem mem_keysOf {d : Digest} :
    d ∈ keysOf digest c ↔ d ∈ c.events.filterMap (digestOf digest c.project) := by
  rw [keysOf, (JsString.sort_perm _).mem_iff, List.mem_dedup, List.reduceOption, List.filterMap_map]
  rfl

theorem reserve_ledger :
    (db.reserve c.project (keysOf digest c)).1.ledger = (db.store digest c).ledger := by
  refine Finset.ext fun x ↦ ?_
  simp only [Db.reserve, Db.store, Finset.mem_union, List.mem_toFinset, List.mem_map, mem_keysOf]

theorem written_eq (hdb : db.Consistent digest) : written digest db c = kept digest db c := by
  refine pending_eq (((JsString.sort_perm _).nodup_iff.2 (List.nodup_dedup _)).filter _) ?_
  intro d hd
  rw [← hdb c.project d, Db.reserve, List.mem_filter, decide_eq_true_eq]
  exact and_iff_right (mem_keysOf.2 hd)

/-- A transaction that gets as far as its `COMMIT` stores what is kept and reports it. -/
theorem transaction_ok (hdb : db.Consistent digest) {stored : Db} {receipt : WriteReceipt}
    (h : transaction digest db c = .ok (stored, receipt)) :
    stored = db.store digest c ∧ receipt = receiptOf digest db c := by
  have hpair : (stored, receipt) = (db.store digest c, receiptOf digest db c) := by
    unfold transaction at h
    simp only [bind, Except.bind, written_eq hdb, reserve_ledger] at h
    repeat' split at h
    all_goals cases h
    all_goals rfl
  exact Prod.mk.inj hpair

/-- A call without faults goes through. -/
theorem transaction_faultless (hdb : db.Consistent digest) (hf : c.faults = {}) :
    transaction digest db c = .ok (db.store digest c, receiptOf digest db c) := by
  unfold transaction
  simp only [hf, throwing, bind, Except.bind, written_eq hdb, reserve_ledger, Option.getD_none,
    ne_eq, not_true_eq_false, if_false, ite_self]
  rfl

/-- What a call can do: nothing, or store its batch; and when it stores it, it says so unless the
answer to `COMMIT` is what got lost. -/
theorem writeBatch_cases (hdb : db.Consistent digest) :
    commits digest db c = true ∧ (writeBatch digest db c).1 = db.store digest c ∧
        ((writeBatch digest db c).2 = .ok (receiptOf digest db c) ∨
          ∃ cause, c.faults.commit = some (true, cause) ∧
            (writeBatch digest db c).2 = .error (failureFor cause)) ∨
      commits digest db c = false ∧ (writeBatch digest db c).1 = db ∧
        ((∃ cause, (writeBatch digest db c).2 = .error (failureFor cause)) ∨
          c.events = [] ∧ (writeBatch digest db c).2 = .ok ⟨(0 : ℤ), [], (0 : ℤ)⟩) := by
  unfold writeBatch commits
  by_cases h0 : c.events.length = 0
  · exact .inr (by simp [List.length_eq_zero_iff.1 h0])
  · cases hc : c.faults.connect with
    | some cause => exact .inr (by simp [h0])
    | none =>
      cases ht : transaction digest db c with
      | error cause => exact .inr (by simp [h0, Except.isOk, Except.toBool])
      | ok r =>
        obtain ⟨stored, receipt⟩ := r
        obtain ⟨rfl, rfl⟩ := transaction_ok hdb ht
        rcases hm : c.faults.commit with _ | ⟨_ | _, cause⟩
        · exact .inl (by simp [h0, Except.isOk, Except.toBool])
        · exact .inr (by simp [h0, Except.isOk, Except.toBool])
        · exact .inl (by simp [h0, Except.isOk, Except.toBool])

theorem kept_map : (kept digest db c).map (·.1) = (collapse (digestOf digest c.project)
    ((db.of c.project).filterMap (digestOf digest c.project)) c.events).unique :=
  collapse_zipIdx_map _ _ 0

theorem of_store : (db.store digest c).of p =
    db.of p ++ if c.project = p then (kept digest db c).map (·.1) else [] := by
  simp only [Db.of, Db.store, List.filter_append, List.map_append, List.filter_map]
  congr 1
  split_ifs with h
  · simp [h, Function.comp_def]
  · simp [h, Function.comp_def]

theorem store_consistent (hdb : db.Consistent digest) :
    (db.store digest c).Consistent digest := by
  intro p d
  have hled : (p, d) ∈ (db.store digest c).ledger ↔
      (p, d) ∈ db.ledger ∨ c.project = p ∧ d ∈ c.events.filterMap (digestOf digest p) := by
    simp only [Db.store, Finset.mem_union, List.mem_toFinset, List.mem_map, Prod.mk.injEq]
    constructor
    · rintro (h | ⟨e, he, rfl, rfl⟩)
      · exact .inl h
      · exact .inr ⟨rfl, he⟩
    · rintro (h | ⟨rfl, he⟩)
      · exact .inl h
      · exact .inr ⟨d, he, rfl, rfl⟩
  rw [hled, of_store, List.filterMap_append, List.mem_append, hdb p d]
  split_ifs with h
  · subst h
    rw [kept_map]
    constructor
    · rintro (hd | ⟨-, hd⟩)
      · exact .inl hd
      · obtain ⟨e, he, hed⟩ := List.mem_filterMap.1 hd
        rcases collapse_covers (f := digestOf digest c.project) _ c.events e he with hu | ⟨k, hk, hs | hs⟩
        · exact .inr (List.mem_filterMap.2 ⟨e, hu, hed⟩)
        · exact .inl (Option.some.inj (hed.symm.trans hk) ▸ hs)
        · exact .inr (Option.some.inj (hed.symm.trans hk) ▸ hs)
    · rintro (hd | hd)
      · exact .inl hd
      · obtain ⟨e, he, hed⟩ := List.mem_filterMap.1 hd
        exact .inr ⟨rfl, List.mem_filterMap.2 ⟨e, (collapse_sublist _ _).subset he, hed⟩⟩
  · simp [h]

theorem writeBatch_consistent (hdb : db.Consistent digest) :
    (writeBatch digest db c).1.Consistent digest := by
  rcases writeBatch_cases (c := c) hdb with ⟨-, h, -⟩ | ⟨-, h, -⟩
  · rw [h]
    exact store_consistent hdb
  · rwa [h]

variable (digest) in
/-- The events of a project in the batches that were committed, in order. -/
def accepted (p : ProjectId) (db : Db) : List Call → List AdmittedEvent
  | [] => []
  | c :: calls => (if commits digest db c ∧ c.project = p then c.events else []) ++
      accepted p (writeBatch digest db c).1 calls

theorem serve_consistent {calls : List Call} (hdb : db.Consistent digest) :
    (serve digest db calls).Consistent digest := by
  induction calls generalizing db with
  | nil => exact hdb
  | cons c calls ih => exact ih (writeBatch_consistent hdb)

/-- A project holds what its committed batches hold, less every repetition of a key. -/
theorem of_serve {calls : List Call} (prior : List AdmittedEvent) (hdb : db.Consistent digest)
    (hp : db.of p = (collapse (digestOf digest p) [] prior).unique) :
    (serve digest db calls).of p =
      (collapse (digestOf digest p) [] (prior ++ accepted digest p db calls)).unique := by
  induction calls generalizing db prior with
  | nil => rw [accepted, List.append_nil]; exact hp
  | cons c calls ih =>
    have hstep : (writeBatch digest db c).1.of p = (collapse (digestOf digest p) []
        (prior ++ if commits digest db c ∧ c.project = p then c.events else [])).unique := by
      rcases writeBatch_cases (c := c) hdb with ⟨hc, h, -⟩ | ⟨hc, h, -⟩
      · rw [h, of_store]
        by_cases hproj : c.project = p
        · subst hproj
          rw [if_pos rfl, if_pos ⟨hc, rfl⟩, kept_map, collapse_append, ← hp, List.nil_append]
        · rw [if_neg hproj, if_neg (fun h ↦ hproj h.2), List.append_nil, List.append_nil, hp]
      · rw [h, if_neg (by simp [hc]), List.append_nil, hp]
    have hserve := ih _ (writeBatch_consistent hdb) hstep
    rw [List.append_assoc] at hserve
    exact hserve

theorem writeBatch_ok (hdb : db.Consistent digest) {receipt : WriteReceipt}
    (h : (writeBatch digest db c).2 = .ok receipt) :
    receipt = receiptOf digest db c ∧ (writeBatch digest db c).1.rows = (db.store digest c).rows := by
  rcases writeBatch_cases (c := c) hdb with ⟨-, hs, hr | ⟨cause, -, hr⟩⟩ | ⟨-, hs, ⟨cause, hr⟩ | ⟨h0, hr⟩⟩
  · rw [hr] at h
    exact ⟨(Except.ok.inj h).symm, by rw [hs]⟩
  · rw [hr] at h
    cases h
  · rw [hr] at h
    cases h
  · rw [hr] at h
    refine ⟨(Except.ok.inj h).symm.trans ?_, ?_⟩
    · simp [receiptOf, kept, h0, collapse]
    · simp [hs, Db.store, kept, h0, collapse]

/-- What the receipt of a call says: which events of the batch were new, in order, and how many
were not. It says so in a form the coalescer takes for consistent. -/
structure Reported (digest : ProjectId → DedupKey → Digest) (db : Db) (c : Call) (after : Db)
    (receipt : WriteReceipt) (indices : List ℕ) : Prop where
  listed : receipt.writtenIndices = indices.map (fun i : ℕ ↦ ((i : ℤ) : JsNumber))
  increasing : indices.Pairwise (· < ·)
  first : ∀ i, i ∈ indices ↔ ∃ e, c.events[i]? = some e ∧ (e.dedupKey = none ∨
    ∃ k, e.dedupKey = some k ∧ (c.project, digest c.project k) ∉ db.ledger ∧
      ∀ j < i, ∀ f, c.events[j]? = some f → f.dedupKey ≠ some k)
  stored : after.rows = db.rows ++ (indices.filterMap (c.events[·]?)).map (⟨c.project, ·⟩)
  counted : ∃ n : ℕ, receipt.written = ((indices.length : ℤ) : JsNumber) ∧
    receipt.deduplicated = ((n : ℤ) : JsNumber) ∧ indices.length + n = c.events.length
  consistent : ∀ rt : Runtime,
    (∀ m n : ℕ, m + n ≤ 2 ^ 53 → rt.add (m : ℤ) (n : ℤ) = ((m + n : ℕ) : ℤ)) →
    c.events.length < 2 ^ 32 → receipt.consistent rt c.events.length

theorem mem_kept {e : AdmittedEvent} {i : ℕ} : (e, i) ∈ kept digest db c ↔
    c.events[i]? = some e ∧ (digestOf digest c.project e = none ∨
      ∃ d, digestOf digest c.project e = some d ∧
        d ∉ (db.of c.project).filterMap (digestOf digest c.project) ∧
        ∀ j < i, ∀ f, c.events[j]? = some f → digestOf digest c.project f ≠ some d) := by
  have h := mem_collapse_zipIdx (f := digestOf digest c.project) (n := 0) (m := i) (b := e)
    ((db.of c.project).filterMap (digestOf digest c.project)) c.events
  rw [Nat.zero_add] at h
  exact h

theorem kept_length_le (digest : ProjectId → DedupKey → Digest) (db : Db) (c : Call) :
    (kept digest db c).length ≤ c.events.length :=
  (collapse_sublist _ _).length_le.trans (by rw [List.length_zipIdx])

theorem reported (hdb : db.Consistent digest)
    (hd : Set.InjOn (digest c.project) {k | ∃ e ∈ c.events, e.dedupKey = some k}) {after : Db}
    (ha : after.rows = (db.store digest c).rows) :
    Reported digest db c after (receiptOf digest db c) ((kept digest db c).map (·.2)) where
  listed := by rw [List.map_map]; rfl
  increasing := collapse_zipIdx_increasing _ _ 0
  first i := by
    simp only [List.mem_map, Prod.exists, exists_eq_right]
    refine exists_congr fun e ↦ mem_kept.trans (and_congr_right fun he ↦ ?_)
    have hmem : e ∈ c.events := List.mem_of_getElem? he
    cases hk : e.dedupKey with
    | none => simp [digestOf, hk]
    | some k =>
      simp only [digestOf, hk, Option.map_some, reduceCtorEq, Option.some_inj, false_or,
        exists_eq_left', ← hdb c.project]
      refine and_congr_right fun _ ↦ forall_congr' fun j ↦ forall_congr' fun _ ↦
        forall_congr' fun f ↦ forall_congr' fun hf ↦ not_congr ?_
      rw [Option.map_eq_some_iff]
      constructor
      · rintro ⟨k', hk', he'⟩
        rw [hk', hd ⟨f, List.mem_of_getElem? hf, hk'⟩ ⟨e, hmem, hk⟩ he']
      · exact fun hk' ↦ ⟨k, hk', rfl⟩
  stored := by
    have hm : ((kept digest db c).map (·.2)).filterMap (c.events[·]?) =
        (kept digest db c).map (·.1) := by
      rw [List.filterMap_map, ← List.filterMap_eq_map]
      exact List.filterMap_congr fun p hp ↦ (mem_kept.1 hp).1
    rw [ha, hm, List.map_map]
    rfl
  counted := by
    have hle := kept_length_le digest db c
    refine ⟨c.events.length - (kept digest db c).length, by rw [List.length_map]; rfl, ?_, ?_⟩
    · rw [Nat.cast_sub hle]
      rfl
    · rw [List.length_map]
      omega
  consistent rt hadd hlen := by
    have hle := kept_length_le digest db c
    have hinj : Function.Injective (fun i : ℕ ↦ ((i : ℤ) : JsNumber)) :=
      JsNumber.intCast_injective.comp Nat.cast_injective
    have hlist : (receiptOf digest db c).writtenIndices =
        ((kept digest db c).map (·.2)).map (fun i : ℕ ↦ ((i : ℤ) : JsNumber)) := by
      rw [List.map_map]
      rfl
    have hnodup : (receiptOf digest db c).writtenIndices.Nodup := by
      rw [hlist]
      exact List.Nodup.map hinj ((collapse_zipIdx_increasing _ _ 0).imp (fun h ↦ h.ne))
    have hind : (receiptOf digest db c).indices = (receiptOf digest db c).writtenIndices :=
      List.dedup_eq_self.2 hnodup
    refine consistent_iff.2 ⟨?_, ?_, fun n hn ↦ ?_⟩
    · rw [hind, hlist, List.length_map, List.length_map]
      rfl
    · have hsum := hadd (kept digest db c).length (c.events.length - (kept digest db c).length)
        (by omega)
      rw [Nat.add_sub_cancel' hle, Nat.cast_sub hle] at hsum
      exact hsum
    · rw [hind, hlist] at hn
      obtain ⟨i, hi, rfl⟩ := List.mem_map.1 hn
      obtain ⟨⟨e, j⟩, hej, rfl⟩ := List.mem_map.1 hi
      exact ⟨j, (List.getElem?_eq_some_iff.1 (mem_kept.1 hej).1).1, rfl⟩

theorem empty_consistent : Db.empty.Consistent digest := by
  intro p d
  simp [Db.empty, Db.of]

theorem of_serve_empty (digest : ProjectId → DedupKey → Digest) (calls : List Call) (p : ProjectId) :
    (serve digest .empty calls).of p =
      (collapse (digestOf digest p) [] (accepted digest p .empty calls)).unique :=
  of_serve [] empty_consistent rfl

theorem faultless_ok (hdb : db.Consistent digest) (c : Call) :
    ∃ receipt, (writeBatch digest db { c with faults := {} }).2 = .ok receipt := by
  unfold writeBatch
  split_ifs
  · exact ⟨_, rfl⟩
  · rw [transaction_faultless hdb rfl]
    exact ⟨_, rfl⟩

theorem faultless_store (hdb : db.Consistent digest) (h : commits digest db c = true) :
    (writeBatch digest db { c with faults := {} }).1 = db.store digest c := by
  have hne : c.events.length ≠ 0 := by
    simp only [commits, Bool.and_eq_true, bne_iff_ne] at h
    exact h.1.1.1
  rw [writeBatch, if_neg hne, transaction_faultless hdb rfl]
  rfl

theorem mem_accepted {calls : List Call} {e : AdmittedEvent}
    (h : e ∈ accepted digest p db calls) : ∃ d ∈ calls, d.project = p ∧ e ∈ d.events := by
  induction calls generalizing db with
  | nil => cases h
  | cons d calls ih =>
    rcases List.mem_append.1 h with h | h
    · split_ifs at h with hc
      · exact ⟨d, List.mem_cons_self, hc.2, h⟩
      · cases h
    · obtain ⟨d', hd', hp, he⟩ := ih h
      exact ⟨d', List.mem_cons_of_mem d hd', hp, he⟩

/-- The keys the batches of a project carry. -/
def keysUsed (p : ProjectId) (calls : List Call) : Set DedupKey :=
  {k | ∃ d ∈ calls, d.project = p ∧ ∃ e ∈ d.events, e.dedupKey = some k}

theorem mem_ledger_iff {calls : List Call} {c : Call} {e : AdmittedEvent} {k : DedupKey}
    (hd : Set.InjOn (digest c.project) (keysUsed c.project (c :: calls))) (he : e ∈ c.events)
    (hk : e.dedupKey = some k) :
    (c.project, digest c.project k) ∈ (serve digest .empty calls).ledger ↔
      ∃ f ∈ (serve digest .empty calls).of c.project, f.dedupKey = some k := by
  rw [serve_consistent empty_consistent c.project]
  simp only [List.mem_filterMap, digestOf, Option.map_eq_some_iff]
  refine exists_congr fun f ↦ and_congr_right fun hf ↦ ⟨?_, fun hk' ↦ ⟨k, hk', rfl⟩⟩
  rintro ⟨k', hk', he'⟩
  rw [of_serve_empty] at hf
  obtain ⟨d, hdm, hp, hfd⟩ := mem_accepted ((collapse_sublist _ _).subset hf)
  rw [hk', hd ⟨d, List.mem_cons_of_mem c hdm, hp, f, hfd, hk'⟩
    ⟨c, List.mem_cons_self, rfl, e, he, hk⟩ he']

/-- After any sequence of writes each key of a project is stored once at most and each keyless
event of a committed batch exactly once. A further write that fails leaves everything as it was,
unless all that failed is to hear of the `COMMIT`: then it did what it does without faults. Tried
again without faults it is stored, and a write that succeeds reports exactly what was new. -/
theorem writes_exactly_once (digest : ProjectId → DedupKey → Digest) (calls : List Call) (c : Call)
    (hd : Set.InjOn (digest c.project) (keysUsed c.project (c :: calls))) :
    let db := serve digest .empty calls
    (∀ p k, (db.of p).countP (·.dedupKey = some k) ≤ 1) ∧
    (∀ p, (db.of p).filter (·.dedupKey.isNone) =
      (accepted digest p .empty calls).filter (·.dedupKey.isNone)) ∧
    (∀ e ∈ c.events, ∀ k, e.dedupKey = some k → ((c.project, digest c.project k) ∈ db.ledger ↔
      ∃ f ∈ db.of c.project, f.dedupKey = some k)) ∧
    (∀ failure, (writeBatch digest db c).2 = .error failure →
      ((writeBatch digest db c).1 = db ∨ (∃ cause, c.faults.commit = some (true, cause)) ∧
        (writeBatch digest db c).1 = (writeBatch digest db { c with faults := {} }).1) ∧
      ∃ receipt, (writeBatch digest (writeBatch digest db c).1 { c with faults := {} }).2 =
        .ok receipt) ∧
    ∀ receipt, (writeBatch digest db c).2 = .ok receipt →
      ∃ indices, Reported digest db c (writeBatch digest db c).1 receipt indices := by
  intro db
  have hdb : db.Consistent digest := serve_consistent empty_consistent
  refine ⟨fun p k ↦ ?_, fun p ↦ ?_, fun e he k hk ↦ mem_ledger_iff hd he hk,
    fun failure hf ↦ ⟨?_, ?_⟩, fun receipt hr ↦ ?_⟩
  · rw [of_serve_empty]
    have hnodup := (collapse_keys (f := digestOf digest p) [] (accepted digest p .empty calls)).1
    refine le_trans (List.countP_mono_left fun e _ he ↦ ?_)
      (countP_le_one_of_nodup hnodup (digest p k))
    simp only [decide_eq_true_eq] at he ⊢
    rw [digestOf, he, Option.map_some]
  · rw [of_serve_empty]
    have hk := collapse_keyless (f := digestOf digest p) [] (accepted digest p .empty calls)
    simpa only [digestOf, Option.isNone_map] using hk
  · rcases writeBatch_cases (c := c) hdb with ⟨hc, hs, hr | ⟨cause, hm, hr⟩⟩ | ⟨-, hs, -⟩
    · rw [hr] at hf
      cases hf
    · exact .inr ⟨⟨cause, hm⟩, hs.trans (faultless_store hdb hc).symm⟩
    · exact .inl hs
  · exact faultless_ok (writeBatch_consistent hdb) c
  · obtain ⟨rfl, hrows⟩ := writeBatch_ok hdb hr
    refine ⟨_, reported hdb (hd.mono ?_) hrows⟩
    rintro k ⟨e, he, hk⟩
    exact ⟨c, List.mem_cons_self, rfl, e, he, hk⟩

def sampleAdmitted (key : Option DedupKey) : AdmittedEvent where
  name := js "open"
  visit := js "v"
  person := none
  occurredAt := (0 : ℤ)
  receivedAt := 0
  dedupKey := key
  properties := []
  system := normaliseSystemProperties none none

theorem writes_exactly_once_sample :
    let digest : ProjectId → DedupKey → Digest := fun _ k ↦ k
    let db := serve digest .empty [{ project := js "p", events := [sampleAdmitted (js "k")] }]
    let c : Call :=
      { project := js "p", events := [sampleAdmitted (js "k"), sampleAdmitted none] }
    ∃ receipt, (writeBatch digest db c).2 = .ok receipt ∧
      ∃ indices, Reported digest db c (writeBatch digest db c).1 receipt indices := by
  intro digest db c
  exact ⟨_, rfl, (writes_exactly_once digest
    [{ project := js "p", events := [sampleAdmitted (js "k")] }] c
    (fun _ _ _ _ h ↦ h)).2.2.2.2 _ rfl⟩

/-- A write can fail and have stored its batch: when the answer to `COMMIT` is what gets lost. -/
theorem failed_write_stores :
    ∃ (digest : ProjectId → DedupKey → Digest) (db : Db) (c : Call) (failure : WriteFailure),
      (∀ p, Function.Injective (digest p)) ∧ (writeBatch digest db c).2 = .error failure ∧
        db.rows = [] ∧ (writeBatch digest db c).1.of c.project = c.events ∧ c.events ≠ [] := by
  refine ⟨fun _ k ↦ k, .empty,
    { project := js "p"
      events := [sampleAdmitted none]
      faults := { commit := some (true, ⟨[], js "Connection terminated"⟩) } },
    _, fun _ _ _ h ↦ h, rfl, rfl, rfl, List.cons_ne_nil _ _⟩

end Counted.Analytics
