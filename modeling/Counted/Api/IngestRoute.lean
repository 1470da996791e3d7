import Counted.Ingestion.Accounting
import Counted.Ingestion.Fate
import Counted.Ingestion.Geography
import Counted.Kernel.NumberText
import Counted.Projects.CredentialStore

namespace Counted.Api

open Foundations Ingestion
open Projects (VerifiedCredential)

/-- The integer that a number is, if it is one. -/
def toInteger : JsNumber → Option ℤ
  | .finite d => if 0 ≤ d.exp then some (d.mant * 10 ^ d.exp.toNat) else none
  | .infinity _ | .nan => none

theorem toInteger_intCast (m : ℤ) : toInteger (m : JsNumber) = some m := by
  have he := Decimal.scaled_exp_nonneg m
  rw [toInteger, if_pos he]
  congr 1
  have hv := Decimal.intCast_toRat m
  rw [Decimal.toRat, ← Int.toNat_of_nonneg he, zpow_natCast] at hv
  exact_mod_cast hv

/-- The entries of `X-Forwarded-For`. -/
def entriesOf (header : JsString) : List JsString := header.splitOn 44

/-- The address `hops` proxies back from the end of `X-Forwarded-For`, unparsed. -/
def clientAddress (header : Option JsString) (hops : JsNumber) : Option JsString :=
  match (toInteger hops).filter (1 ≤ ·), header.map entriesOf with
  | some hops, some entries =>
    let at' := (entries.length : ℤ) - hops
    if at' < 0 then none
    else (entries[at'.toNat]?.map JsString.trim).filter (fun entry ↦ entry ≠ [])
  | _, _ => none

/-- What the route reads of a request: the header, the size of the body, and what `JSON.parse`
makes of it. -/
structure Request where
  forwardedFor : Option JsString
  bytes : ℕ
  body : Option Json

/-- `projectWorkspace` is undefined where there is no such project, and `null` while the project
is unclaimed. -/
structure IngestDeps where
  projectWorkspace : ProjectId → Option (Option WorkspaceId)
  maxBodyBytes : ℕ
  table : CountryTable
  trustedProxyHops : JsNumber

structure IngestFailure where
  status : ℕ
  code : JsString
  detail : JsString
  deriving DecidableEq

def notPermitted : IngestFailure :=
  ⟨403, js "FORBIDDEN", js "This credential cannot write events."⟩

def payloadTooLarge : IngestFailure :=
  ⟨413, js "PAYLOAD_TOO_LARGE", js "The payload is too large."⟩

def eventsNotAnArray : IngestFailure :=
  ⟨400, js "BAD_REQUEST", js "`events` must be an array."⟩

def notJson : IngestFailure := ⟨400, js "BAD_REQUEST", js "The body is not JSON."⟩

def noSuchProject : IngestFailure := ⟨404, js "NOT_FOUND", js "No such project."⟩

def unownedWorkspace : WorkspaceId := js "~unclaimed"

namespace IngestDeps

variable (deps : IngestDeps)

/-- A lookup that throws costs the event its country, and nothing else. -/
def locate (address : JsString) : Option CountryCode :=
  match countryOf deps.table address with
  | .ok country => country
  | .error _ => none

def countryFor (request : Request) : Option CountryCode :=
  (clientAddress request.forwardedFor deps.trustedProxyHops).bind deps.locate

/-- `handleIngest`, from a verified credential to the batch it submits. -/
def batchOf (credential : VerifiedCredential) (request : Request) (at' : Instant) :
    Except IngestFailure IngestBatch :=
  match credential.project.filter (fun _ ↦ .eventsWrite ∈ credential.permissions) with
  | none => .error notPermitted
  | some project =>
    if deps.maxBodyBytes < request.bytes then .error payloadTooLarge
    else match request.body with
      | none => .error notJson
      | some body =>
        match body.plainObject.bind (JsObject.get · (js "events")) with
        | some (.arr events) =>
          match deps.projectWorkspace project with
          | none => .error noSuchProject
          | some workspace => .ok
            { workspace := workspace.getD unownedWorkspace
              project
              receivedAt := at'
              events
              country := deps.countryFor request
              bytes := some request.bytes }
        | _ => .error eventsNotAnArray

/-- What a request may hand to the sink, at any time, under any credential and in any company. -/
def Writes (commit : GroupCommitDeps) (request : Request) (e : AdmittedEvent) : Prop :=
  ∃ credential at' batch actions s i,
    deps.batchOf credential request at' = .ok batch ∧
      run (State.step commit) .initial actions = some s ∧ s.submits[i]? = some batch ∧
      ∃ c ∈ s.commits, ∃ w ∈ c.group.waiters,
        w.submit = i ∧ e ∈ (c.group.events.drop w.offset).take w.contributed

end IngestDeps

/-- A proxy appends the address it received the connection from. -/
def appendAddress (header : Option JsString) (address : JsString) : Option JsString :=
  some (header.elim address (· ++ 44 :: address))

/-- A request as it arrives behind proxies, from the outermost to the innermost. -/
def Request.through (proxies : List JsString) (request : Request) : Request :=
  { request with forwardedFor := proxies.foldl appendAddress request.forwardedFor }

/-- The entries of a header, none where there is no header. -/
def Request.entries (request : Request) : List JsString := request.forwardedFor.elim [] entriesOf

theorem trim_trim (s : JsString) : s.trim.trim = s.trim := by
  have hd : s.trim.dropWhile JsString.isSpace = s.trim := by
    rw [List.dropWhile_eq_self_iff]
    intro hl
    obtain ⟨t, ht⟩ : s.trim <+: s.dropWhile JsString.isSpace := List.rdropWhile_prefix _ _
    have hne : s.dropWhile JsString.isSpace ≠ [] := by
      intro he
      rw [he] at ht
      exact List.ne_nil_of_length_pos hl (List.append_eq_nil_iff.1 ht).1
    have hh := List.head_dropWhile_not JsString.isSpace hne
    have hg : s.trim[0] = (s.dropWhile JsString.isSpace).head hne := by
      simp only [← ht, List.head_append_of_ne_nil (List.ne_nil_of_length_pos hl),
        List.head_eq_getElem]
    rw [hg, hh]
    exact Bool.false_ne_true
  rw [JsString.trim, hd]
  exact List.rdropWhile_idempotent _ _

theorem entries_through {proxies : List JsString} (h : ∀ a ∈ proxies, 44 ∉ a) (request : Request) :
    (request.through proxies).entries = request.entries ++ proxies := by
  rw [Request.entries, Request.entries, Request.through]
  dsimp only
  generalize request.forwardedFor = header
  induction proxies generalizing header with
  | nil => exact (List.append_nil _).symm
  | cons a proxies ih =>
    have ha : (appendAddress header a).elim [] entriesOf = header.elim [] entriesOf ++ [a] := by
      have hs : entriesOf a = [a] := List.splitOn_eq_singleton (h a List.mem_cons_self)
      cases header with
      | none => exact hs
      | some text =>
        exact (List.splitOn_append_cons_self text a).trans (congrArg (entriesOf text ++ ·) hs)
    rw [List.foldl_cons, ih (fun b hb ↦ h b (List.mem_cons_of_mem a hb)), ha, List.append_assoc]
    rfl

/-- The address is the entry at the trusted position, and there is none where the header is
shorter than the proxies make it. -/
theorem clientAddress_eq {request : Request} {hops : ℕ} (h : 1 ≤ hops) :
    clientAddress request.forwardedFor ((hops : ℤ) : JsNumber) =
      if request.entries.length < hops then none
      else (request.entries[request.entries.length - hops]?.map JsString.trim).filter
        (fun entry ↦ entry ≠ []) := by
  have hh : (toInteger ((hops : ℤ) : JsNumber)).filter (1 ≤ ·) = some (hops : ℤ) := by
    rw [toInteger_intCast, Option.filter_some, if_pos (by simpa using h)]
  rw [clientAddress, hh, Request.entries]
  cases request.forwardedFor with
  | none => exact (if_pos (Nat.lt_of_lt_of_le Nat.zero_lt_one h)).symm
  | some header =>
    change (if ((entriesOf header).length : ℤ) - hops < 0 then none else _) =
      if (entriesOf header).length < hops then none else _
    have hn : ((entriesOf header).length - (hops : ℤ)).toNat = (entriesOf header).length - hops := by
      omega
    by_cases hl : (entriesOf header).length < hops
    · rw [if_pos (show ((entriesOf header).length : ℤ) - hops < 0 by omega), if_pos hl]
    · rw [if_neg (show ¬ ((entriesOf header).length : ℤ) - hops < 0 by omega), if_neg hl, hn]
      rfl

namespace IngestDeps

variable {deps : IngestDeps} {commit : GroupCommitDeps} {request : Request} {e : AdmittedEvent}

theorem locate_trim (address : JsString) : deps.locate address.trim = deps.locate address := by
  have h : addressKey address.trim = addressKey address := by
    rw [addressKey, addressKey, trim_trim]
  rw [locate, locate, countryOf, countryOf, h]

theorem locate_blank {address : JsString} (h : address.trim = []) : deps.locate address = none := by
  have hk : addressKey address = .ok none := by
    rw [addressKey, h]
    rfl
  rw [locate, countryOf, hk]
  rfl

theorem locate_entry (entry : Option JsString) :
    ((entry.map JsString.trim).filter (fun entry ↦ entry ≠ [])).bind deps.locate =
      entry.bind deps.locate := by
  cases entry with
  | none => rfl
  | some address =>
    rw [Option.map_some, Option.filter_some]
    split_ifs with h
    · exact deps.locate_trim address
    · exact (locate_blank (by simpa using h)).symm

theorem batchOf_country {credential : VerifiedCredential} {at' : Instant} {batch : IngestBatch}
    (h : deps.batchOf credential request at' = .ok batch) :
    batch.country = deps.countryFor request := by
  rw [batchOf] at h
  split at h
  · cases h
  · split_ifs at h
    split at h
    · cases h
    · split at h
      · split at h
        · cases h
        · cases h
          rfl
      · cases h

theorem admitted_country {rt : Runtime} {policy : AdmissionPolicy} {batch : IngestBatch}
    {outcome : AdmissionOutcome} (h : admitBatch rt policy batch = .ok outcome)
    (he : e ∈ outcome.admitted) : e.system.country = batch.country := by
  obtain ⟨-, -, hc⟩ := admit_cases h
  have hs := collapse_sublist (f := AdmittedEvent.dedupKey) []
    (admitEvents rt policy batch 0 batch.events).1
  rw [collapseDuplicates] at hc
  rw [hc] at hs
  obtain ⟨i, raw, -, hi⟩ := mem_admitEvents.1 (hs.subset he)
  obtain ⟨fields, -, hf⟩ := admitEvent_ok hi
  rw [hf.system]
  rfl

/-- Whatever groups it, an event goes to the sink with the country of its own request. -/
theorem Writes.country (h : deps.Writes commit request e) :
    e.system.country = deps.countryFor request := by
  obtain ⟨credential, at', batch, actions, s, i, hb, hr, hi, c, hc, w, hw, rfl, he⟩ := h
  have hs := reached_inv hr
  obtain ⟨ps, ha, hj⟩ := hs.grouped c.group (.inr (List.mem_map_of_mem hc))
  obtain ⟨p, hp, hrides⟩ := ha.waiter w hw
  obtain ⟨hsub, -⟩ := hs.known p (.inr (hj.subset hp))
  have hbatch : p.batch = batch := by
    rw [← hrides.submit, hi] at hsub
    exact (Option.some.inj hsub).symm
  rw [hrides.slice] at he
  have hm : e ∈ p.outcome.admitted := (collapse_sublist _ _).subset he
  rw [admitted_country (ha.admitted p hp) hm, hbatch, batchOf_country hb]

theorem countryFor_eq {hops : ℕ} (h : deps.trustedProxyHops = ((hops : ℤ) : JsNumber)) :
    deps.countryFor request = if 1 ≤ hops ∧ hops ≤ request.entries.length then
      request.entries[request.entries.length - hops]?.bind deps.locate else none := by
  rw [countryFor, h]
  by_cases h1 : 1 ≤ hops
  · rw [clientAddress_eq h1]
    by_cases hl : request.entries.length < hops
    · rw [if_pos hl, if_neg (fun hc ↦ absurd hc.2 (by omega))]
      rfl
    · rw [if_neg hl, if_pos ⟨h1, not_lt.1 hl⟩, locate_entry]
  · have hn : clientAddress request.forwardedFor ((hops : ℤ) : JsNumber) = none := by
      rw [clientAddress, toInteger_intCast, Option.filter_some, if_neg (by simpa using h1)]
    rw [hn, if_neg (fun hc ↦ h1 hc.1)]
    rfl

/-- Behind the proxies the deployment trusts, the country is that of the first one's entry. -/
theorem countryFor_through {proxies : List JsString} (hc : ∀ a ∈ proxies, 44 ∉ a)
    (h : deps.trustedProxyHops = ((proxies.length : ℤ) : JsNumber)) :
    deps.countryFor (request.through proxies) = proxies.head?.bind deps.locate := by
  rw [countryFor_eq h, entries_through hc]
  cases proxies with
  | nil => rfl
  | cons a proxies =>
    have hl : (request.entries ++ a :: proxies).length - (a :: proxies).length =
        request.entries.length := by
      rw [List.length_append, Nat.add_sub_cancel]
    rw [if_pos ⟨Nat.succ_pos _, by simp⟩, hl]
    simp

/-- Whatever two clients behind the same proxies forge, their events carry one country: that of
the address the outermost proxy saw. Short of an entry for each proxy, or of an address there,
they carry none. -/
theorem country_unforged (deps : IngestDeps) (commit : GroupCommitDeps) {hops : ℕ}
    (hops_eq : deps.trustedProxyHops = ((hops : ℤ) : JsNumber)) :
    (∀ proxies : List JsString, proxies.length = hops → (∀ a ∈ proxies, 44 ∉ a) →
      ∀ (request request' : Request) (e e' : AdmittedEvent),
        deps.Writes commit (request.through proxies) e →
          deps.Writes commit (request'.through proxies) e' →
            e.system.country = proxies.head?.bind deps.locate ∧
              e'.system.country = e.system.country) ∧
      ∀ (request : Request) (e : AdmittedEvent), deps.Writes commit request e →
        (∀ entry, hops ≤ request.entries.length →
          request.entries[request.entries.length - hops]? = some entry →
            ∀ key, addressKey entry ≠ .ok (some key)) → e.system.country = none := by
  constructor
  · rintro proxies rfl hc request request' e e' he he'
    rw [he.country, he'.country, countryFor_through hc hops_eq, countryFor_through hc hops_eq]
    exact ⟨rfl, rfl⟩
  · intro request e he hn
    rw [he.country, countryFor_eq hops_eq]
    split_ifs with hl
    · rw [Option.bind_eq_none_iff]
      intro entry hentry
      have hk := hn entry hl.2 hentry
      rw [locate, countryOf]
      cases ha : addressKey entry with
      | error detail => rfl
      | ok key =>
        cases key with
        | none => rfl
        | some key => exact absurd ha (hk key)
    · rfl

/-- One proxy, and a table in which 203.0.113.0 opens a block of New Zealand. -/
def sampleIngest : IngestDeps where
  projectWorkspace _ := some (some (js "w"))
  maxBodyBytes := 1000
  table := ⟨[js "NZ"], ⟨[0, 3405803776], [0, 1]⟩, ⟨[], []⟩⟩
  trustedProxyHops := ((1 : ℕ) : ℤ)

def forgedEvent : Json :=
  .obj [(js "name", .str (js "open")), (js "visitId", .str (js "v")),
    (js "systemProperties", .obj [(js "country", .str (js "US"))])]

/-- A request whose body claims to come from elsewhere, and whose header may. -/
def forgedRequest (forwardedFor : Option JsString) : Request where
  forwardedFor
  bytes := 100
  body := some (.obj [(js "events", .arr [forgedEvent])])

def forgedBatch (country : Option CountryCode) : IngestBatch :=
  ⟨js "w", js "p", 0, [forgedEvent], country, some 100⟩

theorem locate_sample : sampleIngest.locate (js "203.0.113.7") = some (js "NZ") := by
  have hk : addressKey (js "203.0.113.7") = .ok (some (.v4 3405803783)) := by decide
  have hf : floorIndex [0, 3405803776] 3405803783 = 1 := by simp [floorIndex, floorFrom]
  rw [locate, countryOf, hk]
  simp only [Except.map, Option.bind_some, countryOfKey, CountryTable.onAxis, sampleIngest, hf]
  decide

theorem writes_forged {request : Request} {country : Option CountryCode}
    (hb : request.body = some (.obj [(js "events", .arr [forgedEvent])]))
    (hn : request.bytes = 100) (hc : sampleIngest.countryFor request = country)
    (hr : ∃ s, run (State.step sampleDeps) .initial
      [.submit (forgedBatch country), .quotaAnswer 0 .allowed 0 0, .tick 20] = some s ∧
        s.submits[0]? = some (forgedBatch country) ∧ ∃ e, ∃ c ∈ s.commits,
          ∃ w ∈ c.group.waiters, w.submit = 0 ∧
            e ∈ (c.group.events.drop w.offset).take w.contributed) :
    ∃ e, sampleIngest.Writes sampleDeps request e := by
  obtain ⟨s, hs, hi, e, he⟩ := hr
  refine ⟨e, ⟨js "key", .ingest, js "w", some (js "p"), [.eventsWrite], js "issuer"⟩, 0,
    forgedBatch country, _, s, 0, ?_, hs, hi, he⟩
  obtain ⟨header, bytes, body⟩ := request
  cases hb
  cases hn
  rw [← hc]
  rfl

theorem country_unforged_sample :
    (∀ header header', ∃ e e',
      sampleIngest.Writes sampleDeps ((forgedRequest header).through [js " 203.0.113.7"]) e ∧
        sampleIngest.Writes sampleDeps ((forgedRequest header').through [js " 203.0.113.7"]) e' ∧
          e.system.country = some (js "NZ") ∧ e'.system.country = some (js "NZ")) ∧
      ∃ e, sampleIngest.Writes sampleDeps (forgedRequest none) e ∧ e.system.country = none := by
  have hl : sampleIngest.locate (js " 203.0.113.7") = some (js "NZ") :=
    (sampleIngest.locate_trim _).symm.trans locate_sample
  have hp : ∀ a ∈ [js " 203.0.113.7"], 44 ∉ a := by decide
  have hw (header : Option JsString) : ∃ e,
      sampleIngest.Writes sampleDeps ((forgedRequest header).through [js " 203.0.113.7"]) e := by
    apply writes_forged rfl rfl ((countryFor_through hp rfl).trans hl)
    exact ⟨_, rfl, rfl, _, _, .head _, _, .head _, rfl, .head _⟩
  constructor
  · intro header header'
    obtain ⟨e, he⟩ := hw header
    obtain ⟨e', he'⟩ := hw header'
    obtain ⟨hc, hc'⟩ := (country_unforged sampleIngest sampleDeps rfl).1 [js " 203.0.113.7"] rfl hp
      _ _ e e' he he'
    exact ⟨e, e', he, he', hc.trans hl, hc'.trans (hc.trans hl)⟩
  · obtain ⟨e, he⟩ : ∃ e, sampleIngest.Writes sampleDeps (forgedRequest none) e := by
      have hc : sampleIngest.countryFor (forgedRequest none) = none := by
        rw [@countryFor_eq _ _ 1 rfl]
        exact if_neg fun h ↦ absurd h.2 (by decide)
      apply writes_forged rfl rfl hc
      exact ⟨_, rfl, rfl, _, _, .head _, _, .head _, rfl, .head _⟩
    refine ⟨e, he, (country_unforged sampleIngest sampleDeps rfl).2 _ e he fun entry hle ↦ ?_⟩
    exact absurd hle (by decide)

end IngestDeps

end Counted.Api
