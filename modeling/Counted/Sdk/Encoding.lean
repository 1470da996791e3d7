import Counted.Foundations.Run
import Counted.Sdk.Threaded

namespace Counted.Sdk

open Foundations

/-- What a JSON encoder makes of what an event carries: JSON, a text that is not JSON where it
writes a number that is not finite, or an error. -/
inductive Encoding | json | nonFinite | rejected
  deriving DecidableEq

/-- The clients that encode a whole batch once its events have left the buffer. -/
inductive EncodingSdk
  | go
  | python (maxBatchSize maxBufferEvents : ℕ) (hbatch : 0 < maxBatchSize)
      (hbuffer : 0 < maxBufferEvents)

def EncodingSdk.traits : EncodingSdk → SdkTraits
  | .go => Sdk.go.traits .default
  | .python maxBatchSize maxBufferEvents hbatch hbuffer =>
    Sdk.python.traits (.capped maxBatchSize maxBufferEvents hbatch hbuffer)

/-- What a batch is encoded to. -/
inductive Payload | json | text | raised
  deriving DecidableEq

/-- `json.Marshal`, whose error is not read and leaves an empty text, and `json.dumps`, which
writes `NaN` and raises on what it has no text for. -/
def EncodingSdk.payload (sdk : EncodingSdk) (encodings : List Encoding) : Payload :=
  if encodings.all (· = .json) then .json
  else
    match sdk with
    | .go => .text
    | .python .. => if encodings.any (· = .rejected) then .raised else .text

/-- The server takes every batch that is JSON, and answers everything else as the ingest route
does. -/
def acceptsJson : Bool → Heard
  | true => .answer ⟨202, none, none, 0⟩
  | false => .answer ⟨400, some false, none, 0⟩

/-- A client and its timer, whether a call of `track` has raised, and what has become of the events
that it was given. -/
structure Ledger (E : Type) where
  client : SdkClient E
  timer : Bool
  raised : Bool
  tracked : List E
  acknowledged : List E
  dropped : List E
  refused : List E
  lost : List E

inductive LedgerAction (E : Type)
  | track (event : E) (now : ℚ)
  | flush (now : ℚ)
  | tick (now : ℚ)

namespace Ledger

variable {E : Type} (sdk : EncodingSdk) (encode : E → Encoding) (s : Ledger E)

def initial : Ledger E := ⟨.initial, true, false, [], [], [], [], []⟩

/-- A flush, and whether it raised. The batch has left the buffer before it is encoded. -/
def flush (now : ℚ) : Ledger E × Bool :=
  let batch := s.client.batch sdk.traits now
  let client := s.client.taken sdk.traits now
  if batch.isEmpty then ({ s with client }, false)
  else
    match sdk.payload (batch.map encode) with
    | .json => ({ s with
        client := client.settle sdk.traits batch (acceptsJson true) now 0
        acknowledged := s.acknowledged ++ batch }, false)
    | .text => ({ s with
        client := client.settle sdk.traits batch (acceptsJson false) now 0
        refused := s.refused ++ batch }, false)
    | .raised => ({ s with client, lost := s.lost ++ batch }, true)

def pushed (event : E) : Ledger E := { s with
  client := s.client.push sdk.traits event
  tracked := s.tracked ++ [event]
  dropped := s.dropped ++ (s.client.append event).spilled sdk.traits }

def flushesOn (event : E) : Bool :=
  sdk.traits.flushesWhenFull &&
    sdk.traits.maxBatch ≤ (s.client.push sdk.traits event).buffer.length

def track (event : E) (now : ℚ) : Ledger E :=
  if s.client.closed || s.client.disabled then s
  else if s.flushesOn sdk event then
    let r := (s.pushed sdk event).flush sdk encode now
    { r.1 with raised := r.1.raised || r.2 }
  else s.pushed sdk event

/-- A timer whose flush raised is not started again. -/
def step : LedgerAction E → Option (Ledger E)
  | .track event now => some (s.track sdk encode event now)
  | .flush now => some (s.flush sdk encode now).1
  | .tick now =>
    if s.timer then
      let r := s.flush sdk encode now
      some { r.1 with timer := !r.2 }
    else none

/-- The batch that a step takes out of the buffer. -/
def takes : LedgerAction E → List E
  | .track event now =>
    if s.client.closed || s.client.disabled then []
    else if s.flushesOn sdk event then (s.client.push sdk.traits event).batch sdk.traits now
    else []
  | .flush now => s.client.batch sdk.traits now
  | .tick now => if s.timer then s.client.batch sdk.traits now else []

end Ledger

end Counted.Sdk
