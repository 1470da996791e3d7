import Counted.Ingestion.Vocabulary
import Counted.Ingestion.SystemProperties
import Counted.Foundations.Collapse
import Counted.Foundations.Decoding

namespace Counted.Ingestion

open Foundations

structure AdmissionPolicy where
  maxEventsPerBatch : ℕ
  maxBodyBytes : ℕ
  maxProperties : ℕ
  maxPropertyKeyLength : ℕ
  maxPropertyValueLength : ℕ
  maxFutureSkew : Duration
  maxAge : Duration

def defaultAdmissionPolicy : AdmissionPolicy where
  maxEventsPerBatch := 250
  maxBodyBytes := 1048576
  maxProperties := 64
  maxPropertyKeyLength := 64
  maxPropertyValueLength := 1024
  maxFutureSkew := 300000
  maxAge := 2592000000

abbrev Properties := List (JsString × PropertyValue)

/-- An event that has passed every rule, the only shape the sink is handed. A client may send
`occurredAt` as a number that is no whole millisecond. -/
structure AdmittedEvent where
  name : JsString
  visit : JsString
  person : Option JsString
  occurredAt : Decimal
  receivedAt : Instant
  dedupKey : Option DedupKey
  properties : Properties
  system : SystemProperties
  deriving DecidableEq

structure AdmissionOutcome where
  admitted : List AdmittedEvent
  rejected : List RejectedEvent
  duplicates : ℕ

def malformed (index : ℕ) (detail : JsString) : EventAdmissionError := .malformedEvent index detail

/-- The longest id, of a visit or of anything else. -/
def maxIdLength : ℕ := 128

/-- `isIdShape` on a string, which is all `isVisitId` asks of it. -/
def isIdShape (s : JsString) : Bool :=
  0 < s.length && s.length ≤ maxIdLength && !s.any JsString.isSpace

def maxPersonIdLength : ℕ := 128

/-- `/^[^@\s]+@[^@\s]+\.[^@\s]+$/`: the part before the only `@` is not empty, and some dot
after it is neither the first nor the last unit. -/
def looksLikeEmail (s : JsString) : Bool :=
  let user := s.takeWhile (· != 64)
  let domain := s.drop (user.length + 1)
  !s.any JsString.isSpace && s.contains 64 && user ≠ [] && !domain.contains 64 &&
    (domain.drop 1).dropLast.contains 46

def admitPersonId : Json → Except EventAdmissionError JsString
  | .str raw =>
    let trimmed := raw.trim
    if trimmed.length = 0 then .error .personIdRequired
    else if maxPersonIdLength < trimmed.length then
      .error (.personIdTooLong trimmed.length maxPersonIdLength)
    else if looksLikeEmail trimmed then .error .personIdLooksLikeEmail
    else .ok trimmed
  | _ => .error .personIdRequired

def admitOptionalPerson : Option Json → Except EventAdmissionError (Option JsString)
  | none | some .null => .ok none
  | some raw => (admitPersonId raw).map some

/-- The range of `Date`. -/
def maxEpochMillis : ℤ := 8640000000000000

section

variable (rt : Runtime)

def instantFromISO (raw : JsString) : Option Instant :=
  (rt.dateParse raw).filter (fun parsed ↦ |parsed| ≤ maxEpochMillis)

def parseOccurredAt (raw : Option Json) (receivedAt : Instant) (index : ℕ) :
    Except EventAdmissionError Decimal :=
  match raw with
  | none | some .null => .ok receivedAt
  | some (.num (.finite d)) => .ok d
  | some (.num _) => .error (malformed index (js "occurredAt is not a timestamp"))
  | some (.str s) =>
    match instantFromISO rt s with
    | some parsed => .ok parsed
    | none => .error (malformed index (js "occurredAt is not a timestamp: " ++ s))
  | some _ => .error (malformed index (js "occurredAt must be an ISO-8601 string or epoch millis"))

end

def checkSkew (policy : AdmissionPolicy) (occurredAt : Decimal) (receivedAt : Instant) :
    Option EventAdmissionError :=
  let skewMs := occurredAt.sub receivedAt
  if (policy.maxFutureSkew : Decimal).lt skewMs then some (.clockSkew skewMs policy.maxFutureSkew)
  else if skewMs.lt (-policy.maxAge : ℤ) then some (.clockSkew skewMs policy.maxAge)
  else none

def admitProperty (policy : AdmissionPolicy) (index : ℕ) (key : JsString) :
    Json → Except EventAdmissionError PropertyValue
  | .null => .ok .null
  | .bool b => .ok (.bool b)
  | .num (.finite d) => .ok (.num d)
  | .num _ => .error (malformed index (key ++ js " is not a finite number"))
  | .str s =>
    if policy.maxPropertyValueLength < s.length then
      .error (malformed index
        (key ++ js " must be at most " ++ natText policy.maxPropertyValueLength ++ js " characters"))
    else .ok (.str s)
  | .arr _ | .obj _ =>
    .error (malformed index (key ++ js " must be a string, number, boolean or null"))

def admitEntries (policy : AdmissionPolicy) (index : ℕ) (properties : Properties) :
    List (JsString × Json) → Except EventAdmissionError Properties
  | [] => .ok properties
  | (key, value) :: entries =>
    if key.length = 0 ∨ policy.maxPropertyKeyLength < key.length then
      .error (malformed index
        (js "property names must be 1-" ++ natText policy.maxPropertyKeyLength ++ js " characters"))
    else match admitProperty policy index key value with
      | .error e => .error e
      | .ok v => admitEntries policy index (JsObject.set properties key v) entries

def admitProperties (policy : AdmissionPolicy) (raw : Option Json) (index : ℕ) :
    Except EventAdmissionError Properties :=
  match raw with
  | none | some .null => .ok []
  | some (.obj entries) =>
    if policy.maxProperties < entries.length then
      .error (malformed index (js "at most " ++ natText policy.maxProperties ++
        js " properties, got " ++ natText entries.length))
    else admitEntries policy index [] entries
  | some _ => .error (malformed index (js "properties must be an object"))

/-- An empty key is no key. -/
def readIdempotencyKey (raw : Option Json) (index : ℕ) :
    Except EventAdmissionError (Option JsString) :=
  match raw with
  | none | some .null => .ok none
  | some (.str key) => .ok (if 0 < key.length then some key else none)
  | some _ => .error (malformed index (js "idempotencyKey must be a string"))

/-- The unit of "this is the same event": the client's key and the instant it was tracked. -/
def dedupKey (idempotencyKey : JsString) (occurredAt : Decimal) : DedupKey :=
  idempotencyKey ++ [0] ++ occurredAt.toJs

/-- A check of the source that answers with an error or with `null`. -/
def require (problem : Option EventAdmissionError) : Except EventAdmissionError Unit :=
  match problem with
  | none => .ok ()
  | some e => .error e

variable (rt : Runtime) (policy : AdmissionPolicy) (batch : IngestBatch)

def admitEvent (raw : Json) (index : ℕ) : Except EventAdmissionError AdmittedEvent := do
  let .obj fields := raw | .error (malformed index (js "event must be an object"))
  let .some (.str name) := JsObject.get fields (js "name")
    | .error (malformed index (js "name is required"))
  require (checkEventName name index)
  let .some (.str visit) := JsObject.get fields (js "visitId")
    | .error (malformed index (js "visitId is required and must be a non-empty identifier"))
  if !isIdShape visit then
    .error (malformed index (js "visitId is required and must be a non-empty identifier"))
  let person ← admitOptionalPerson (JsObject.get fields (js "userId"))
  let occurredAt ← parseOccurredAt rt (JsObject.get fields (js "occurredAt")) batch.receivedAt index
  require (checkSkew policy occurredAt batch.receivedAt)
  let properties ← admitProperties policy (JsObject.get fields (js "properties")) index
  require (checkAgentVocabulary name properties index)
  let key ← readIdempotencyKey (JsObject.get fields (js "idempotencyKey")) index
  .ok
    { name, visit, person, occurredAt, receivedAt := batch.receivedAt,
      dedupKey := key.map (dedupKey · occurredAt), properties,
      system := normaliseSystemProperties (JsObject.get fields (js "systemProperties")) batch.country }

/-- The loop over the events of a batch, from an index on. -/
def admitEvents (index : ℕ) : List Json → List AdmittedEvent × List RejectedEvent
  | [] => ([], [])
  | raw :: events =>
    let rest := admitEvents (index + 1) events
    match admitEvent rt policy batch raw index with
    | .ok event => (event :: rest.1, rest.2)
    | .error error => (rest.1, ⟨index, error⟩ :: rest.2)

def collapseDuplicates (events : List AdmittedEvent) (seen : List DedupKey) :
    Deduplicated AdmittedEvent := collapse (·.dedupKey) seen events

/-- `admit`, over a whole batch. -/
def admitBatch : Except BatchAdmissionError AdmissionOutcome :=
  if policy.maxEventsPerBatch < batch.events.length then
    .error (.batchTooLarge batch.events.length policy.maxEventsPerBatch)
  else match batch.bytes.filter (policy.maxBodyBytes < ·) with
    | some bytes => .error (.payloadTooLarge bytes policy.maxBodyBytes)
    | none =>
      let (passed, rejected) := admitEvents rt policy batch 0 batch.events
      let r := collapseDuplicates passed []
      .ok ⟨r.unique, rejected, r.duplicates⟩

/-- What an event that passed was read from. -/
structure AdmittedFrom (fields : List (JsString × Json)) (index : ℕ) (e : AdmittedEvent) :
    Prop where
  name : JsObject.get fields (js "name") = some (.str e.name)
  named : checkEventName e.name index = none
  visit : JsObject.get fields (js "visitId") = some (.str e.visit)
  shaped : isIdShape e.visit = true
  person : admitOptionalPerson (JsObject.get fields (js "userId")) = .ok e.person
  occurredAt : parseOccurredAt rt (JsObject.get fields (js "occurredAt")) batch.receivedAt index =
    .ok e.occurredAt
  skew : checkSkew policy e.occurredAt batch.receivedAt = none
  properties : admitProperties policy (JsObject.get fields (js "properties")) index =
    .ok e.properties
  vocabulary : checkAgentVocabulary e.name e.properties index = none
  key : ∃ key, readIdempotencyKey (JsObject.get fields (js "idempotencyKey")) index = .ok key ∧
    e.dedupKey = key.map (dedupKey · e.occurredAt)
  system : e.system =
    normaliseSystemProperties (JsObject.get fields (js "systemProperties")) batch.country
  receivedAt : e.receivedAt = batch.receivedAt

variable {rt policy batch} {index : ℕ} {events : List Json} {outcome : AdmissionOutcome}

attribute [local simp] admitEvents admitEntries

theorem require_ok {problem : Option EventAdmissionError} {u : Unit}
    (h : require problem = .ok u) : problem = none := by
  cases problem with
  | none => rfl
  | some e => cases h

theorem admitEvent_ok {raw : Json} {e : AdmittedEvent}
    (h : admitEvent rt policy batch raw index = .ok e) :
    ∃ fields, raw = .obj fields ∧ AdmittedFrom rt policy batch fields index e := by
  unfold admitEvent at h
  split at h
  · rename_i fields
    split at h
    · rename_i name hname
      obtain ⟨_, hnamed, h⟩ := bind_ok h
      split at h
      · rename_i visit hvisit
        split_ifs at h with hshape
        · cases h
        obtain ⟨person, hperson, h⟩ := bind_ok h
        obtain ⟨occurredAt, hat, h⟩ := bind_ok h
        obtain ⟨_, hskew, h⟩ := bind_ok h
        obtain ⟨properties, hprops, h⟩ := bind_ok h
        obtain ⟨_, hvoc, h⟩ := bind_ok h
        obtain ⟨key, hkey, h⟩ := bind_ok h
        cases h
        exact ⟨fields, rfl, hname, require_ok hnamed, hvisit, by simpa using hshape, hperson, hat,
          require_ok hskew, hprops, require_ok hvoc, ⟨key, hkey, rfl⟩, rfl, rfl⟩
      · cases h
    · cases h
  · cases h

theorem mem_admitEntries {properties out : Properties} {entries : List (JsString × Json)}
    (h : admitEntries policy index properties entries = .ok out)
    (hn : (properties.map (·.1) ++ entries.map (·.1)).Nodup) (f : JsString × PropertyValue) :
    f ∈ out ↔ f ∈ properties ∨ f.1 ≠ js "__proto__" ∧
      ∃ j, (f.1, j) ∈ entries ∧ admitProperty policy index f.1 j = .ok f.2 := by
  induction entries generalizing properties with
  | nil =>
    cases h
    simp
  | cons entry entries ih =>
    obtain ⟨key, value⟩ := entry
    rw [admitEntries] at h
    split_ifs at h with hk
    split at h
    · cases h
    · rename_i v hv
      have hfresh : ∀ g ∈ properties, g.1 ≠ key := by
        intro g hg hgk
        exact List.disjoint_of_nodup_append hn (List.mem_map_of_mem hg) (by simp [hgk])
      have hset : JsObject.set properties key v =
          if key = js "__proto__" then properties else properties ++ [(key, v)] := by
        have hany : properties.any (fun f ↦ f.1 = key) = false := by simpa using hfresh
        rw [JsObject.set, hany, if_neg Bool.false_ne_true]
      have hn' : ((JsObject.set properties key v).map (·.1) ++ entries.map (·.1)).Nodup := by
        rw [hset]
        split_ifs
        · exact hn.sublist (List.Sublist.append_left (List.sublist_cons_self _ _) _)
        · simpa using hn
      rw [ih h hn', hset]
      have hone : admitProperty policy index key value = .ok f.2 ↔ v = f.2 := by
        rw [hv]
        exact ⟨fun he ↦ Except.ok.inj he, congrArg _⟩
      obtain ⟨k, w⟩ := f
      by_cases hp : key = js "__proto__"
      · rw [if_pos hp]
        simp only [List.mem_cons, Prod.mk.injEq]
        refine or_congr_right (and_congr_right fun hne ↦ ?_)
        simp [hp, hne]
      · rw [if_neg hp]
        simp only [List.mem_append, List.mem_cons, List.not_mem_nil, or_false, Prod.mk.injEq,
          or_assoc]
        refine or_congr_right ⟨?_, ?_⟩
        · rintro (⟨rfl, rfl⟩ | ⟨hne, j, hj, ha⟩)
          · exact ⟨hp, value, .inl ⟨rfl, rfl⟩, hv⟩
          · exact ⟨hne, j, .inr hj, ha⟩
        · rintro ⟨hne, j, ⟨rfl, rfl⟩ | hj, ha⟩
          · exact .inl ⟨rfl, (hone.1 ha).symm⟩
          · exact .inr ⟨hne, j, hj, ha⟩

theorem admitEntries_ok {properties out : Properties} {entries : List (JsString × Json)}
    (h : admitEntries policy index properties entries = .ok out) :
    ∀ f ∈ entries, ∃ v, admitProperty policy index f.1 f.2 = .ok v := by
  induction entries generalizing properties with
  | nil => simp
  | cons entry entries ih =>
    obtain ⟨key, value⟩ := entry
    rw [admitEntries] at h
    split_ifs at h
    split at h
    · cases h
    · rename_i v hv
      exact List.forall_mem_cons.2 ⟨⟨v, hv⟩, ih h⟩

theorem mem_admitEvents {e : AdmittedEvent} : e ∈ (admitEvents rt policy batch index events).1 ↔
    ∃ i raw, events[i]? = some raw ∧ admitEvent rt policy batch raw (index + i) = .ok e := by
  induction events generalizing index with
  | nil => simp [admitEvents]
  | cons raw events ih =>
    have hsplit : (∃ i raw', (raw :: events)[i]? = some raw' ∧
        admitEvent rt policy batch raw' (index + i) = .ok e) ↔
        admitEvent rt policy batch raw index = .ok e ∨
          ∃ i raw', events[i]? = some raw' ∧
            admitEvent rt policy batch raw' (index + 1 + i) = .ok e := by
      constructor
      · rintro ⟨i, raw', hi, ha⟩
        cases i with
        | zero =>
          cases hi
          exact .inl ha
        | succ i => exact .inr ⟨i, raw', hi, by rwa [add_assoc, add_comm 1 i]⟩
      · rintro (ha | ⟨i, raw', hi, ha⟩)
        · exact ⟨0, raw, rfl, ha⟩
        · exact ⟨i + 1, raw', hi, by rwa [add_assoc, add_comm 1 i] at ha⟩
    rw [hsplit, ← ih, admitEvents]
    split
    · rename_i event he
      rw [he, List.mem_cons, Except.ok.injEq, eq_comm]
    · rename_i error he
      simp [he]

theorem admitEvents_length : (admitEvents rt policy batch index events).1.length +
    (admitEvents rt policy batch index events).2.length = events.length := by
  induction events generalizing index with
  | nil => rfl
  | cons raw events ih =>
    have h := @ih (index + 1)
    simp only [admitEvents, List.length_cons]
    split <;> simp only [List.length_cons] <;> omega

theorem admitEvents_index : ∀ r ∈ (admitEvents rt policy batch index events).2,
    index ≤ r.index ∧ r.index < index + events.length := by
  induction events generalizing index with
  | nil => simp [admitEvents]
  | cons raw events ih =>
    have h := @ih (index + 1)
    intro r hr
    simp only [admitEvents] at hr
    split at hr
    · have := h r hr
      simp only [List.length_cons]
      omega
    · simp only [List.mem_cons] at hr
      rcases hr with rfl | hr
      · simp
      · have := h r hr
        simp only [List.length_cons]
        omega

theorem admitEvents_increasing :
    ((admitEvents rt policy batch index events).2.map (·.index)).Pairwise (· < ·) := by
  induction events generalizing index with
  | nil => exact .nil
  | cons raw events ih =>
    simp only [admitEvents]
    split
    · exact ih
    · refine List.pairwise_cons.2 ⟨fun i hi ↦ ?_, ih⟩
      obtain ⟨r, hr, rfl⟩ := List.mem_map.1 hi
      exact (admitEvents_index r hr).1

/-- What a batch that was not refused as a whole is made of. -/
theorem admit_cases (h : admitBatch rt policy batch = .ok outcome) :
    batch.events.length ≤ policy.maxEventsPerBatch ∧
      outcome.rejected = (admitEvents rt policy batch 0 batch.events).2 ∧
      collapseDuplicates (admitEvents rt policy batch 0 batch.events).1 [] =
        ⟨outcome.admitted, outcome.duplicates⟩ := by
  rw [admitBatch] at h
  split_ifs at h with hn
  split at h
  · cases h
  · cases h
    exact ⟨not_lt.1 hn, rfl, rfl⟩

/-- Every event is admitted, collapsed into one that is, or rejected. -/
theorem admit_accounts (h : admitBatch rt policy batch = .ok outcome) :
    outcome.admitted.length + outcome.duplicates + outcome.rejected.length =
      batch.events.length := by
  obtain ⟨-, hr, hc⟩ := admit_cases h
  have hl := collapse_length (f := AdmittedEvent.dedupKey) []
    (admitEvents rt policy batch 0 batch.events).1
  rw [collapseDuplicates] at hc
  rw [hc] at hl
  rw [hl, hr, admitEvents_length]

theorem admit_rejected_increasing (h : admitBatch rt policy batch = .ok outcome) :
    (outcome.rejected.map (·.index)).Pairwise (· < ·) ∧
      ∀ r ∈ outcome.rejected, r.index < batch.events.length := by
  obtain ⟨-, hr, -⟩ := admit_cases h
  rw [hr]
  exact ⟨admitEvents_increasing, fun r hm ↦ by simpa using (admitEvents_index r hm).2⟩

end Counted.Ingestion
