import Counted.Foundations.Utf8
import Counted.Kernel.NumberText

namespace Counted.Tenancy

open Foundations

/-- HMAC-SHA256 in hexadecimal, of a key and a message in bytes. -/
structure Hmac where
  hex : List ℕ → List ℕ → JsString
  digits : ∀ key message, ∀ u ∈ hex key message, 48 ≤ u ∧ u ≤ 57 ∨ 97 ≤ u ∧ u ≤ 102

def Hmac.CollisionFree (mac : Hmac) : Prop := ∀ key, Function.Injective (mac.hex key)

def hmacSha256Hex (mac : Hmac) (key message : JsString) : JsString :=
  mac.hex (utf8Bytes key) (utf8Bytes message)

/-- `Number::toString` of an integer of at most 21 digits, as every safe one is. -/
def intText (n : ℤ) : JsString := (if n < 0 then js "-" else []) ++ natText n.natAbs

/-- `Number.parseInt(text, 10)`, `none` for `NaN`. The value is exact where it is safe, and an
unsafe one stays unsafe when it is rounded. -/
def parseInt (text : JsString) : Option ℤ :=
  let text := text.dropWhile JsString.isSpace
  let unsigned := if text.head? = some 45 ∨ text.head? = some 43 then text.tail else text
  let digits := unsigned.takeWhile (fun u ↦ 48 ≤ u && u ≤ 57)
  if digits = [] then none
  else some (if text.head? = some 45 then -digitsValue digits else digitsValue digits)

def isSafeInteger (n : ℤ) : Bool := |n| ≤ 9007199254740991

/-! ### The header -/

structure SignatureHeader where
  timestamp : ℤ
  signatures : List JsString

/-- The key and the value of a part, cut at its first `=`. -/
def keyValue (part : JsString) : Option (JsString × JsString) :=
  if 61 ∈ part then some ((Decimal.cut 61 part).1.trim, (Decimal.cut 61 part).2.trim) else none

def readPart (state : Option ℤ × List JsString) (part : JsString) : Option ℤ × List JsString :=
  match keyValue part with
  | none => state
  | some (key, value) =>
    if key = js "t" then
      match parseInt value with
      | some parsed => if isSafeInteger parsed then (some parsed, state.2) else state
      | none => state
    else if key = js "v1" then (state.1, state.2 ++ [value])
    else state

def parseSignatureHeader (header : JsString) : Option SignatureHeader :=
  let read := (header.splitOn 44).foldl readPart (none, [])
  match read.1 with
  | none => none
  | some timestamp => if read.2 = [] then none else some ⟨timestamp, read.2⟩

/-! ### Verification -/

inductive WebhookRejection
  | badSignature
  | stale (ageSeconds : ℤ)
  | malformed (detail : JsString)

structure SignatureRequest where
  body : JsString
  header : Option JsString
  secret : JsString
  at' : ℤ
  tolerance : Option ℤ

/-- Five minutes. -/
def defaultTolerance : ℤ := 5 * 60000

def toSeconds (d : ℤ) : ℚ := d / 1000

/-- What is signed: the timestamp, a full stop and the body. -/
def signedContent (timestamp : ℤ) (body : JsString) : JsString :=
  intText timestamp ++ js "." ++ body

def verifyStripeSignature (mac : Hmac) (request : SignatureRequest) : Except WebhookRejection ℤ :=
  match request.header with
  | none => .error .badSignature
  | some header =>
    if header = [] then .error .badSignature
    else
      match parseSignatureHeader header with
      | none =>
        .error (.malformed (js "stripe-signature header has no timestamp or v1 signature"))
      | some parsed =>
        let expected :=
          hmacSha256Hex mac request.secret (signedContent parsed.timestamp request.body)
        if !parsed.signatures.any (· = expected) then .error .badSignature
        else
          let tolerance := request.tolerance.getD defaultTolerance
          let ageSeconds := request.at' / 1000 - parsed.timestamp
          if toSeconds tolerance < |ageSeconds| then .error (.stale ageSeconds)
          else .ok (parsed.timestamp * 1000)

def signPayload (mac : Hmac) (secret body : JsString) (at' : ℤ) : JsString :=
  js "t=" ++ intText (at' / 1000) ++ js ",v1=" ++
    hmacSha256Hex mac secret (signedContent (at' / 1000) body)

/-! ### What a header says -/

/-- The timestamp a part gives. -/
def timestampOf (part : JsString) : Option ℤ :=
  (keyValue part).bind fun kv ↦
    if kv.1 = js "t" then (parseInt kv.2).filter (fun n ↦ isSafeInteger n) else none

/-- The signature of the current scheme a part gives. -/
def signatureOf (part : JsString) : Option JsString :=
  (keyValue part).bind fun kv ↦ if kv.1 = js "v1" then some kv.2 else none

/-- The last part that gives a timestamp gives this one. -/
def Yields (header : JsString) (timestamp : ℤ) : Prop :=
  ∃ before part after, header.splitOn 44 = before ++ part :: after ∧
    timestampOf part = some timestamp ∧ ∀ p ∈ after, timestampOf p = none

def Carries (header signature : JsString) : Prop :=
  ∃ part ∈ header.splitOn 44, signatureOf part = some signature

/-- In both directions. -/
def SignatureRequest.Within (request : SignatureRequest) (timestamp : ℤ) : Prop :=
  (|request.at' / 1000 - timestamp| : ℤ) ≤ toSeconds (request.tolerance.getD defaultTolerance)

/-- A signature that was made for one of these pairs, or that is none under this secret. -/
def Genuine (mac : Hmac) (secret : JsString) (signed : Set (ℤ × JsString)) (v : JsString) : Prop :=
  (∃ p ∈ signed, v = hmacSha256Hex mac secret (signedContent p.1 p.2)) ∨
    ∀ message, v ≠ mac.hex (utf8Bytes secret) message

variable {mac : Hmac} {secret body header part signature : JsString} {n timestamp : ℤ}

theorem readPart_eq (state : Option ℤ × List JsString) : readPart state part =
    ((timestampOf part).or state.1, state.2 ++ (signatureOf part).toList) := by
  have hne : js "t" ≠ js "v1" := by decide
  rw [readPart, timestampOf, signatureOf]
  cases keyValue part with
  | none => simp
  | some kv =>
    obtain ⟨key, value⟩ := kv
    dsimp only [Option.bind_some]
    by_cases ht : key = js "t"
    · subst ht
      simp only [if_true, if_neg hne, Option.toList_none, List.append_nil]
      cases parseInt value with
      | none => rfl
      | some parsed => cases hs : isSafeInteger parsed <;> simp [Option.filter, hs]
    · by_cases hv : key = js "v1"
      · subst hv
        simp [hne.symm]
      · simp [ht, hv]

theorem readPart_fold (parts : List JsString) (state : Option ℤ × List JsString) :
    parts.foldl readPart state =
      ((parts.reverse.findSome? timestampOf).or state.1,
        state.2 ++ parts.filterMap signatureOf) := by
  induction parts generalizing state with
  | nil => simp
  | cons part parts ih =>
    rw [List.foldl_cons, ih, readPart_eq, List.reverse_cons, List.findSome?_append,
      List.filterMap_cons]
    cases parts.reverse.findSome? timestampOf <;> cases hs : signatureOf part <;> simp

theorem yields_iff : Yields header timestamp ↔
    (header.splitOn 44).reverse.findSome? timestampOf = some timestamp := by
  rw [List.findSome?_eq_some_iff]
  constructor
  · rintro ⟨before, part, after, hparts, ht, hafter⟩
    refine ⟨after.reverse, part, before.reverse, by rw [hparts]; simp, ht, fun p hp ↦ ?_⟩
    exact hafter p (List.mem_reverse.1 hp)
  · rintro ⟨after, part, before, hparts, ht, hafter⟩
    refine ⟨before.reverse, part, after.reverse, ?_, ht, fun p hp ↦ ?_⟩
    · rw [← List.reverse_reverse (header.splitOn 44), hparts]
      simp
    · exact hafter p (List.mem_reverse.1 hp)

theorem carries_iff : Carries header signature ↔
    signature ∈ (header.splitOn 44).filterMap signatureOf := by
  rw [List.mem_filterMap]
  rfl

theorem parseSignatureHeader_eq_some {parsed : SignatureHeader} :
    parseSignatureHeader header = some parsed ↔ Yields header parsed.timestamp ∧
      parsed.signatures = (header.splitOn 44).filterMap signatureOf ∧ parsed.signatures ≠ [] := by
  rw [yields_iff, parseSignatureHeader, readPart_fold]
  obtain ⟨timestamp, signatures⟩ := parsed
  dsimp only [List.nil_append]
  rw [Option.or_none]
  cases hfind : (header.splitOn 44).reverse.findSome? timestampOf with
  | none => simp
  | some t =>
    by_cases hnil : (header.splitOn 44).filterMap signatureOf = []
    · simp [hnil]
    · simp only [hnil, if_false, Option.some.injEq, SignatureHeader.mk.injEq]
      constructor
      · rintro ⟨rfl, rfl⟩
        exact ⟨rfl, rfl, hnil⟩
      · rintro ⟨rfl, rfl, -⟩
        exact ⟨rfl, rfl⟩

theorem Yields.ne_nil (h : Yields header timestamp) : header ≠ [] := by
  rintro rfl
  have hnone : (([] : JsString).splitOn 44).reverse.findSome? timestampOf = none := by decide
  exact absurd ((yields_iff.1 h).symm.trans hnone) (Option.some_ne_none _)

/-- Behind a header that is well formed. -/
theorem verify_of_parsed {request : SignatureRequest} {parsed : SignatureHeader} {signedAt : ℤ}
    (hheader : request.header = some header) (hparsed : parseSignatureHeader header = some parsed) :
    verifyStripeSignature mac request = .ok signedAt ↔
      Carries header
          (hmacSha256Hex mac request.secret (signedContent parsed.timestamp request.body)) ∧
        request.Within parsed.timestamp ∧ signedAt = parsed.timestamp * 1000 := by
  obtain ⟨hyields, hsigs, -⟩ := parseSignatureHeader_eq_some.1 hparsed
  have hany : parsed.signatures.any (· = hmacSha256Hex mac request.secret
      (signedContent parsed.timestamp request.body)) = true ↔
      Carries header (hmacSha256Hex mac request.secret
        (signedContent parsed.timestamp request.body)) := by
    rw [carries_iff, ← hsigs, List.any_eq_true]
    simp
  rw [verifyStripeSignature, hheader]
  dsimp only
  rw [if_neg hyields.ne_nil, hparsed]
  dsimp only
  by_cases hcarries : Carries header (hmacSha256Hex mac request.secret
      (signedContent parsed.timestamp request.body))
  · rw [hany.2 hcarries, Bool.not_true, if_neg Bool.false_ne_true]
    by_cases hwithin : request.Within parsed.timestamp
    · rw [if_neg (not_lt.2 hwithin), Except.ok.injEq, eq_comm]
      exact ⟨fun h ↦ ⟨hcarries, hwithin, h⟩, fun h ↦ h.2.2⟩
    · rw [if_pos (not_le.1 hwithin)]
      exact iff_of_false nofun fun h ↦ hwithin h.2.1
  · rw [Bool.eq_false_iff.2 (mt hany.1 hcarries), Bool.not_false, if_pos rfl]
    exact iff_of_false nofun fun h ↦ hcarries h.1

/-- Accepted exactly when the header carries the signature of the body at its own timestamp, and
the clock is close to that. -/
theorem verify_eq_ok {request : SignatureRequest} {signedAt : ℤ} :
    verifyStripeSignature mac request = .ok signedAt ↔ ∃ header timestamp,
      request.header = some header ∧ Yields header timestamp ∧
        Carries header (hmacSha256Hex mac request.secret (signedContent timestamp request.body)) ∧
          request.Within timestamp ∧ signedAt = timestamp * 1000 := by
  constructor
  · intro h
    cases hheader : request.header with
    | none =>
      rw [verifyStripeSignature, hheader] at h
      cases h
    | some header =>
      cases hparsed : parseSignatureHeader header with
      | none =>
        rw [verifyStripeSignature, hheader] at h
        dsimp only at h
        rw [hparsed] at h
        split_ifs at h
      | some parsed =>
        obtain ⟨hcarries, hwithin, rfl⟩ := (verify_of_parsed hheader hparsed).1 h
        exact ⟨header, parsed.timestamp, rfl, (parseSignatureHeader_eq_some.1 hparsed).1,
          hcarries, hwithin, rfl⟩
  · rintro ⟨header, timestamp, hheader, hyields, hcarries, hwithin, rfl⟩
    have hne := List.ne_nil_of_mem (carries_iff.1 hcarries)
    have hparsed := (@parseSignatureHeader_eq_some header ⟨timestamp, _⟩).2 ⟨hyields, rfl, hne⟩
    exact (verify_of_parsed hheader hparsed).2 ⟨hcarries, hwithin, rfl⟩

/-! ### What was signed -/

theorem utf8Bytes_cons {u : UInt16} {s : Units} (h : u.toNat < 0x80) :
    utf8Bytes (u :: s) = u.toNat :: utf8Bytes s := by
  rw [utf8Bytes, codePoints_cons (not_surrogate h).1, unpaired_ascii h, List.flatMap_cons, utf8,
    if_pos h]
  rfl

theorem utf8Bytes_append {s t : Units} (h : ∀ u ∈ s, u.toNat < 0x80) :
    utf8Bytes (s ++ t) = s.map UInt16.toNat ++ utf8Bytes t := by
  induction s with
  | nil => rfl
  | cons u s ih =>
    rw [List.cons_append, utf8Bytes_cons (h u List.mem_cons_self),
      ih fun v hv ↦ h v (List.mem_cons_of_mem u hv)]
    rfl

/-- The units of an integer's text. -/
theorem intText_units {u : UInt16} (h : u ∈ intText n) : u = 45 ∨ 48 ≤ u ∧ u ≤ 57 := by
  rcases List.mem_append.1 h with h | h
  · split_ifs at h
    · exact .inl (List.mem_singleton.1 h)
    · cases h
  · obtain ⟨d, hd, rfl⟩ := natText_digits _ u h
    interval_cases d <;> exact .inr (by decide)

theorem intText_ascii {u : UInt16} (h : u ∈ intText n) : 33 ≤ u.toNat ∧ u.toNat < 0x80 := by
  rcases intText_units h with rfl | ⟨hlo, hhi⟩
  · decide
  · rw [UInt16.le_iff_toNat_le] at hlo hhi
    exact ⟨(by decide : 33 ≤ 48).trans hlo, hhi.trans_lt (by decide)⟩

theorem isSpace_eq_false {u : UInt16} (h : 33 ≤ u.toNat ∧ u.toNat < 0x80) :
    JsString.isSpace u = false := by
  simp [JsString.isSpace, UInt16.le_iff_toNat_le, ← UInt16.toNat_inj]
  omega

theorem dropWhile_isSpace {s : JsString} (h : ∀ u ∈ s, 33 ≤ u.toNat ∧ u.toNat < 0x80) :
    s.dropWhile JsString.isSpace = s := by
  cases s with
  | nil => rfl
  | cons u s =>
    rw [List.dropWhile_cons_of_neg]
    exact Bool.eq_false_iff.1 (isSpace_eq_false (h u List.mem_cons_self))

theorem trim_eq_self {s : JsString} (h : ∀ u ∈ s, 33 ≤ u.toNat ∧ u.toNat < 0x80) :
    s.trim = s := by
  rw [JsString.trim, dropWhile_isSpace h, List.rdropWhile,
    dropWhile_isSpace fun u hu ↦ h u (List.mem_reverse.1 hu), List.reverse_reverse]

theorem takeWhile_digits {s : JsString} (h : IsDigits s) :
    s.takeWhile (fun u ↦ 48 ≤ u && u ≤ 57) = s := by
  rw [List.takeWhile_eq_self_iff]
  intro u hu
  obtain ⟨d, hd, rfl⟩ := h u hu
  interval_cases d <;> rfl

theorem parseInt_intText (n : ℤ) : parseInt (intText n) = some n := by
  have hdigits := natText_digits n.natAbs
  obtain ⟨u, s, hs⟩ := List.exists_cons_of_ne_nil (natText_ne_nil n.natAbs)
  have hu : u ≠ 45 ∧ u ≠ 43 := by
    obtain ⟨d, hd, rfl⟩ := hdigits u (hs ▸ List.mem_cons_self)
    interval_cases d <;> decide
  have hunsigned : (if (intText n).head? = some 45 ∨ (intText n).head? = some 43 then
      (intText n).tail else intText n) = natText n.natAbs := by
    by_cases hn : n < 0
    · rw [intText, if_pos hn]
      rfl
    · rw [intText, if_neg hn, List.nil_append, hs]
      simp [hu.1, hu.2]
  have hsign : (intText n).head? = some 45 ↔ n < 0 := by
    by_cases hn : n < 0
    · rw [intText, if_pos hn]
      exact iff_of_true rfl hn
    · rw [intText, if_neg hn, List.nil_append, hs]
      exact iff_of_false (by simp [hu.1]) hn
  rw [parseInt, dropWhile_isSpace fun _ ↦ intText_ascii, hunsigned, takeWhile_digits hdigits, if_neg (natText_ne_nil _), digitsValue_natText]
  simp only [hsign]
  split_ifs <;> exact congrArg some (by omega)

theorem intText_injective : Function.Injective intText := fun m n h ↦
  Option.some.inj (by rw [← parseInt_intText m, h, parseInt_intText n])

theorem append_cons_inj {α : Type} {d : α} {a b s t : List α} (ha : d ∉ a) (hb : d ∉ b)
    (h : a ++ d :: s = b ++ d :: t) : a = b ∧ s = t := by
  induction a generalizing b with
  | nil =>
    cases b with
    | nil => exact ⟨rfl, (List.cons.inj h).2⟩
    | cons c b => exact absurd ((List.cons.inj h).1 ▸ List.mem_cons_self) hb
  | cons c a ih =>
    cases b with
    | nil => exact absurd ((List.cons.inj h).1 ▸ List.mem_cons_self) ha
    | cons e b =>
      obtain ⟨rfl, htail⟩ := List.cons.inj h
      obtain ⟨rfl, rfl⟩ := ih (fun hd ↦ ha (List.mem_cons_of_mem c hd))
        (fun hd ↦ hb (List.mem_cons_of_mem c hd)) htail
      exact ⟨rfl, rfl⟩

/-- The timestamp ends at the first full stop, whatever the body holds. -/
theorem signedContent_inj {m n : ℤ} {a b : JsString}
    (h : utf8Bytes (signedContent m a) = utf8Bytes (signedContent n b)) :
    m = n ∧ utf8Bytes a = utf8Bytes b := by
  have hbytes (k : ℤ) (c : JsString) : utf8Bytes (signedContent k c) =
      (intText k).map UInt16.toNat ++ 46 :: utf8Bytes c := by
    rw [signedContent, List.append_assoc, utf8Bytes_append fun _ hu ↦ (intText_ascii hu).2]
    exact congrArg _ (utf8Bytes_cons (by decide))
  have hstop (k : ℤ) : 46 ∉ (intText k).map UInt16.toNat := by
    intro hmem
    obtain ⟨u, hu, heq⟩ := List.mem_map.1 hmem
    rcases intText_units hu with rfl | ⟨hlo, -⟩
    · exact absurd heq (by decide)
    · rw [UInt16.le_iff_toNat_le, heq] at hlo
      exact absurd hlo (by decide)
  rw [hbytes, hbytes] at h
  obtain ⟨htext, hbody⟩ := append_cons_inj (hstop m) (hstop n) h
  exact ⟨intText_injective (List.map_injective_iff.2 (fun _ _ ↦ UInt16.toNat_inj.1) htext), hbody⟩

theorem verify_genuine {request : SignatureRequest} {signedAt : ℤ} {signed : Set (ℤ × JsString)}
    (hmac : mac.CollisionFree)
    (hgenuine : ∀ header v, request.header = some header → Carries header v →
      Genuine mac request.secret signed v)
    (h : verifyStripeSignature mac request = .ok signedAt) :
    ∃ p ∈ signed, signedAt = p.1 * 1000 ∧ utf8Bytes p.2 = utf8Bytes request.body := by
  obtain ⟨header, timestamp, hheader, -, hcarries, -, rfl⟩ := verify_eq_ok.1 h
  rcases hgenuine header _ hheader hcarries with ⟨p, hp, heq⟩ | hnone
  · obtain ⟨ht, hbody⟩ := signedContent_inj (hmac _ heq)
    exact ⟨p, hp, by rw [ht], hbody.symm⟩
  · exact absurd rfl (hnone _)

/-! ### What signing makes -/

theorem keyValue_append {key : JsString} (hkey : 61 ∉ key) (value : JsString) :
    keyValue (key ++ 61 :: value) = some (key.trim, value.trim) := by
  have hcut : Decimal.cut 61 (key ++ 61 :: value) = (key, value) :=
    Decimal.cut_append (fun u hu heq ↦ hkey (by rwa [heq] at hu)) value
  rw [keyValue, if_pos (List.mem_append_right _ List.mem_cons_self), hcut]

theorem hex_ascii {message : JsString} {u : UInt16} (h : u ∈ hmacSha256Hex mac secret message) :
    33 ≤ u.toNat ∧ u.toNat < 0x80 := by
  have hdigit := mac.digits _ _ u h
  simp [UInt16.le_iff_toNat_le] at hdigit
  omega

/-- Any text with a key before it. -/
theorem keyValue_key {key : JsString} (value : JsString) (hkey : 61 ∉ key)
    (hk : ∀ u ∈ key, 33 ≤ u.toNat ∧ u.toNat < 0x80)
    (hv : ∀ u ∈ value, 33 ≤ u.toNat ∧ u.toNat < 0x80) :
    keyValue (key ++ 61 :: value) = some (key, value) := by
  rw [keyValue_append hkey, trim_eq_self hk, trim_eq_self hv]

theorem timestampOf_signed (hsafe : isSafeInteger n = true) :
    timestampOf (js "t=" ++ intText n) = some n := by
  have hkv : keyValue (js "t=" ++ intText n) = some (js "t", intText n) :=
    keyValue_key _ (show 61 ∉ js "t" by decide) (by simp [js]) fun _ ↦ intText_ascii
  rw [timestampOf, hkv, Option.bind_some, if_pos rfl, parseInt_intText, Option.filter_some,
    if_pos hsafe]

theorem signatureOf_timestamp : signatureOf (js "t=" ++ intText n) = none := by
  have hkv : keyValue (js "t=" ++ intText n) = some (js "t", intText n) :=
    keyValue_key _ (show 61 ∉ js "t" by decide) (by simp [js]) fun _ ↦ intText_ascii
  rw [signatureOf, hkv, Option.bind_some, if_neg (show js "t" ≠ js "v1" by decide)]

theorem signatureOf_signed {message : JsString} :
    signatureOf (js "v1=" ++ hmacSha256Hex mac secret message) =
      some (hmacSha256Hex mac secret message) := by
  have hkv : keyValue (js "v1=" ++ hmacSha256Hex mac secret message) =
      some (js "v1", hmacSha256Hex mac secret message) :=
    keyValue_key _ (show 61 ∉ js "v1" by decide) (by simp [js]) fun _ ↦ hex_ascii
  rw [signatureOf, hkv, Option.bind_some, if_pos rfl]

theorem timestampOf_v1 {message : JsString} :
    timestampOf (js "v1=" ++ hmacSha256Hex mac secret message) = none := by
  have hkv : keyValue (js "v1=" ++ hmacSha256Hex mac secret message) =
      some (js "v1", hmacSha256Hex mac secret message) :=
    keyValue_key _ (show 61 ∉ js "v1" by decide) (by simp [js]) fun _ ↦ hex_ascii
  rw [timestampOf, hkv, Option.bind_some, if_neg (show js "v1" ≠ js "t" by decide)]

/-- Its two parts. -/
theorem splitOn_signPayload {at' : ℤ} : (signPayload mac secret body at').splitOn 44 =
    [js "t=" ++ intText (at' / 1000),
      js "v1=" ++ hmacSha256Hex mac secret (signedContent (at' / 1000) body)] := by
  have hfirst : 44 ∉ js "t=" ++ intText (at' / 1000) := by
    intro h
    rcases List.mem_append.1 h with h | h
    · exact absurd h (by decide)
    · exact absurd (intText_units h) (by decide)
  have hlast : 44 ∉ js "v1=" ++ hmacSha256Hex mac secret (signedContent (at' / 1000) body) := by
    intro h
    rcases List.mem_append.1 h with h | h
    · exact absurd h (by decide)
    · exact absurd (mac.digits _ _ _ h) (by decide)
  have htext : signPayload mac secret body at' = (js "t=" ++ intText (at' / 1000)) ++
      44 :: (js "v1=" ++ hmacSha256Hex mac secret (signedContent (at' / 1000) body)) := by
    rw [signPayload, List.append_assoc]
    rfl
  rw [htext, List.splitOn_append_cons_self, List.splitOn_eq_singleton hfirst,
    List.splitOn_eq_singleton hlast]
  rfl

/-- With further parts that give no timestamp, in any order. -/
theorem verify_signed {at' : ℤ} {request : SignatureRequest} {extra : List JsString}
    (hsafe : isSafeInteger (at' / 1000) = true) (hheader : request.header = some header)
    (hparts : (header.splitOn 44).Perm
      ((signPayload mac request.secret request.body at').splitOn 44 ++ extra))
    (hextra : ∀ p ∈ extra, timestampOf p = none) (hwithin : request.Within (at' / 1000)) :
    verifyStripeSignature mac request = .ok (at' / 1000 * 1000) := by
  rw [splitOn_signPayload] at hparts
  refine verify_eq_ok.2 ⟨header, at' / 1000, hheader, ?_, ?_, hwithin, rfl⟩
  · have ht : js "t=" ++ intText (at' / 1000) ∈ header.splitOn 44 := hparts.mem_iff.2 (by simp)
    obtain ⟨before, after, hsplit⟩ := List.append_of_mem ht
    have hrest : (before ++ after).Perm
        ((js "v1=" ++ hmacSha256Hex mac request.secret
          (signedContent (at' / 1000) request.body)) :: extra) := by
      rw [hsplit] at hparts
      exact (List.perm_middle.symm.trans hparts).cons_inv
    refine ⟨before, _, after, hsplit, timestampOf_signed hsafe, fun p hp ↦ ?_⟩
    rcases List.mem_cons.1 (hrest.mem_iff.1 (List.mem_append_right before hp)) with rfl | hp
    · exact timestampOf_v1
    · exact hextra p hp
  · exact ⟨_, hparts.mem_iff.2 (by simp), signatureOf_signed⟩

/-- `isInstant`, of a whole number of milliseconds. -/
def isInstant (at' : ℤ) : Bool := |at'| ≤ 8640000000000000

theorem isSafeInteger_of_instant {at' : ℤ} (h : isInstant at' = true) :
    isSafeInteger (at' / 1000) = true := by
  simp only [isInstant, isSafeInteger, decide_eq_true_eq, abs_le] at h ⊢
  omega

theorem verified_webhook_is_signed (mac : Hmac) :
    (∀ (request : SignatureRequest) (signedAt : ℤ),
      verifyStripeSignature mac request = .ok signedAt ↔ ∃ header timestamp,
        request.header = some header ∧ Yields header timestamp ∧
          Carries header (hmacSha256Hex mac request.secret (signedContent timestamp request.body)) ∧
            request.Within timestamp ∧ signedAt = timestamp * 1000) ∧
    (mac.CollisionFree → ∀ (request : SignatureRequest) (signed : Set (ℤ × JsString)),
      (∀ header v, request.header = some header → Carries header v →
        Genuine mac request.secret signed v) →
      ∀ signedAt, verifyStripeSignature mac request = .ok signedAt → ∃ p ∈ signed,
        signedAt = p.1 * 1000 ∧ utf8Bytes p.2 = utf8Bytes request.body ∧
          (wellFormed p.2 = true → wellFormed request.body = true → p.2 = request.body)) ∧
    ∀ (request : SignatureRequest) (header : JsString) (at' : ℤ) (extra : List JsString),
      isInstant at' = true → request.header = some header →
      (header.splitOn 44).Perm
        ((signPayload mac request.secret request.body at').splitOn 44 ++ extra) →
      (∀ p ∈ extra, timestampOf p = none) → request.Within (at' / 1000) →
      verifyStripeSignature mac request = .ok (at' / 1000 * 1000) := by
  refine ⟨fun request signedAt ↦ verify_eq_ok, fun hmac request signed hgenuine signedAt h ↦ ?_,
    fun request header at' extra hat hheader hparts hextra hwithin ↦
      verify_signed (isSafeInteger_of_instant hat) hheader hparts hextra hwithin⟩
  obtain ⟨p, hp, hsigned, hbytes⟩ := verify_genuine hmac hgenuine h
  exact ⟨p, hp, hsigned, hbytes, fun hwf hwf' ↦ utf8Bytes_inj hwf hwf' hbytes⟩

/-- A hash without collisions: the bytes of the message in a row. -/
def listingMac : Hmac where
  hex _ message := message.flatMap fun b ↦ natText b ++ [97]
  digits _ message u hu := by
    obtain ⟨b, -, hb⟩ := List.mem_flatMap.1 hu
    rcases List.mem_append.1 hb with hb | hb
    · obtain ⟨d, hd, rfl⟩ := natText_digits _ u hb
      interval_cases d <;> exact .inl (by decide)
    · rw [List.mem_singleton.1 hb]
      exact .inr (by decide)

theorem listingMac_collisionFree : listingMac.CollisionFree := by
  intro key a b h
  have hmark (n : ℕ) : 97 ∉ natText n := fun hmem ↦ by
    obtain ⟨d, hd, heq⟩ := natText_digits n 97 hmem
    interval_cases d <;> exact absurd heq (by decide)
  have hcons (n : ℕ) (l : List ℕ) : listingMac.hex key (n :: l) =
      natText n ++ 97 :: listingMac.hex key l := by
    change (n :: l).flatMap (fun b ↦ natText b ++ [97]) =
      natText n ++ 97 :: l.flatMap fun b ↦ natText b ++ [97]
    rw [List.flatMap_cons, List.append_assoc, List.singleton_append]
  have hne (n : ℕ) (l : List ℕ) : listingMac.hex key (n :: l) ≠ [] := by
    rw [hcons]
    exact List.append_ne_nil_of_right_ne_nil _ (List.cons_ne_nil _ _)
  induction a generalizing b with
  | nil =>
    cases b with
    | nil => rfl
    | cons n b => exact absurd h.symm (hne n b)
  | cons m a ih =>
    cases b with
    | nil => exact absurd h (hne m a)
    | cons n b =>
      rw [hcons, hcons] at h
      obtain ⟨hhead, htail⟩ := append_cons_inj (hmark m) (hmark n) h
      rw [natText_injective hhead, ih htail]

def paidBody : JsString := js "invoice.paid"

def paidRequest : SignatureRequest where
  body := paidBody
  header := some (js "v0=00," ++ signPayload listingMac (js "whsec") paidBody 1735689600999)
  secret := js "whsec"
  at' := 1735689900000
  tolerance := none

theorem paidRequest_parts : (js "v0=00," ++ signPayload listingMac (js "whsec") paidBody
    1735689600999).splitOn 44 =
      js "v0=00" :: (signPayload listingMac (js "whsec") paidBody 1735689600999).splitOn 44 :=
  List.splitOn_append_cons_self (js "v0=00") _

theorem paid_request_is_signed :
    verifyStripeSignature listingMac paidRequest = .ok 1735689600000 ∧
      ∃ p ∈ ({(1735689600, paidBody)} : Set (ℤ × JsString)), (1735689600000 : ℤ) = p.1 * 1000 ∧
        utf8Bytes p.2 = utf8Bytes paidRequest.body ∧
          (wellFormed p.2 = true → wellFormed paidRequest.body = true →
            p.2 = paidRequest.body) := by
  obtain ⟨-, hsound, hcomplete⟩ := verified_webhook_is_signed listingMac
  have hwithin : paidRequest.Within 1735689600 := by
    rw [SignatureRequest.Within]
    norm_num [paidRequest, toSeconds, defaultTolerance]
  have hok := hcomplete paidRequest _ 1735689600999 [js "v0=00"] (by decide) rfl
    (by rw [paidRequest_parts]; exact (List.perm_append_singleton _ _).symm) (by decide) hwithin
  refine ⟨hok, hsound listingMac_collisionFree paidRequest _
    (fun header v hheader hcarries ↦ ?_) _ hok⟩
  obtain rfl := Option.some.inj hheader
  rw [carries_iff, paidRequest_parts, splitOn_signPayload] at hcarries
  simp only [List.filterMap_cons, signatureOf_timestamp, signatureOf_signed,
    (by decide : signatureOf (js "v0=00") = none), List.filterMap_nil,
    List.mem_singleton] at hcarries
  exact .inl ⟨_, rfl, hcarries⟩

end Counted.Tenancy
