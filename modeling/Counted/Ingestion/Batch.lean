import Counted.Kernel.Json

namespace Counted

/-- Milliseconds since the epoch. What the clock and `Date` yield is whole. -/
abbrev Instant := ℤ

/-- A span in milliseconds. -/
abbrev Duration := ℤ

namespace Ingestion

abbrev WorkspaceId := JsString
abbrev ProjectId := JsString
abbrev CountryCode := JsString
abbrev DedupKey := JsString

inductive PropertyValue
  | str (s : JsString)
  | num (d : Decimal)
  | bool (b : Bool)
  | null
  deriving DecidableEq

/-- One request's worth of intent. Both ids come from the verified credential. -/
structure IngestBatch where
  workspace : WorkspaceId
  project : ProjectId
  receivedAt : Instant
  events : List Json
  country : Option CountryCode
  bytes : Option ℕ

/-- `JSON.parse` gives an object each key once. -/
def IngestBatch.Parsed (batch : IngestBatch) : Prop :=
  ∀ fields entries, .obj fields ∈ batch.events →
    JsObject.get fields (js "properties") = some (.obj entries) → (entries.map (·.1)).Nodup

/-- Refuses the whole batch. -/
inductive BatchAdmissionError
  | batchTooLarge (count max : ℕ)
  | payloadTooLarge (bytes max : ℕ)
  | planExceeded (limit used : ℕ)
  | rateLimited (retryAfterMs : Duration)
  | sinkUnavailable (detail : JsString)
  deriving DecidableEq

/-- Refuses one event. -/
inductive EventAdmissionError
  | malformedEvent (index : ℕ) (detail : JsString)
  | unknownEventName (name : JsString)
  | clockSkew (skewMs : Decimal) (max : Duration)
  | personIdRequired
  | personIdTooLong (length max : ℕ)
  | personIdLooksLikeEmail
  deriving DecidableEq

structure RejectedEvent where
  index : ℕ
  error : EventAdmissionError
  deriving DecidableEq

end Ingestion

end Counted
