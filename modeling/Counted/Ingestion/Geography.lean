import Counted.Ingestion.Batch

namespace Counted.Ingestion

/-- An address as the one number a lookup needs. -/
inductive AddressKey
  | v4 (key : ℕ)
  | v6 (key : ℕ)
  deriving DecidableEq

def isDigit (u : UInt16) : Bool := 48 ≤ u && u ≤ 57

def isHexDigit (u : UInt16) : Bool := isDigit u || (65 ≤ u && u ≤ 70) || (97 ≤ u && u ≤ 102)

/-- `Number.parseInt` of digits and letters, to a base that has them all. -/
def parseDigits (base : ℕ) (text : JsString) : ℕ :=
  text.foldl (fun n u ↦
    base * n + if u ≤ 57 then u.toNat - 48 else if u ≤ 70 then u.toNat - 55 else u.toNat - 87) 0

/-- `toString(16)`. -/
def hexText (n : ℕ) : JsString :=
  if n = 0 then js "0" else (Nat.digits 16 n).reverse.map Json.hexDigit

/-- `/^\d{1,3}$/`. -/
def isOctetText (text : JsString) : Bool := text ≠ [] && text.length ≤ 3 && text.all isDigit

/-- `/^[0-9a-fA-F]{1,4}$/`. -/
def isHextet (text : JsString) : Bool := text ≠ [] && text.length ≤ 4 && text.all isHexDigit

/-- `split(".")`. -/
def parts (text : JsString) : List JsString := text.splitOn 46

/-- `split("::")`, the text before the separator that is read at the moment being `piece`. -/
def halvesFrom (piece : JsString) : JsString → List JsString
  | 58 :: 58 :: rest => piece :: halvesFrom [] rest
  | u :: rest => halvesFrom (piece ++ [u]) rest
  | [] => [piece]

def parseOctets (text : JsString) : Option ℕ :=
  if (parts text).length ≠ 4 then none
  else (parts text).foldlM (fun value part ↦
    if isOctetText part && parseDigits 10 part ≤ 255 then some (value * 256 + parseDigits 10 part)
    else none) 0

def hextetsOf (half : JsString) : List JsString := if half = [] then [] else half.splitOn 58

/-- Rewrites a dotted quad at the end as two hextets, or refuses it. -/
def expandTail (tail : List JsString) : Option (List JsString) :=
  match tail.getLast? with
  | none => some tail
  | some last =>
    if last.contains 46 then (parseOctets last).map (fun packed ↦
      tail.dropLast ++ [hexText (packed / 65536), hexText (packed % 65536)])
    else some tail

/-- The text of a `RangeError`: no array has a negative length. -/
def invalidArrayLength : JsString := js "Invalid array length"

/-- The key that eight hextets give. An IPv4 address in IPv6 clothing is an IPv4 address. -/
def keyOfHextets (hextets : List JsString) : Option AddressKey :=
  if hextets.length = 8 && hextets.all isHextet then
    match hextets.map (parseDigits 16) with
    | [0, 0, 0, 0, 0, 65535, g, h] => some (.v4 (g * 65536 + h))
    | a :: b :: c :: _ => some (.v6 (a * 4294967296 + b * 65536 + c))
    | _ => none
  else none

/-- The top 48 bits of an IPv6 address. Throws where what surrounds `::` has more than eight
hextets. -/
def parseV6Key (text : JsString) : Except JsString (Option AddressKey) :=
  match halvesFrom [] text with
  | [whole] => .ok ((expandTail (hextetsOf whole)).bind keyOfHextets)
  | [before, after] =>
    let left := hextetsOf before
    let right := hextetsOf after
    let halves := if right = [] then (expandTail left).map (·, right)
      else (expandTail right).map (left, ·)
    match halves with
    | none => .ok none
    | some (left, right) =>
      if 8 < left.length + right.length then .error invalidArrayLength
      else .ok (keyOfHextets
        (left ++ List.replicate (8 - left.length - right.length) (js "0") ++ right))
  | _ => .ok none

/-- `/^\[([^\]]+)\](?::\d+)?$/`: what stands between brackets, a port after them or not. -/
def bracketed : JsString → Option JsString
  | 91 :: rest =>
    let inner := rest.takeWhile (· ≠ 93)
    match rest.drop inner.length with
    | [93] => if inner = [] then none else some inner
    | 93 :: 58 :: port => if inner ≠ [] && port ≠ [] && port.all isDigit then some inner else none
    | _ => none
  | _ => none

/-- `/^(\d{1,3}(?:\.\d{1,3}){3}):\d+$/`: a dotted quad before a port. -/
def quadWithPort (text : JsString) : Option JsString :=
  let quad := text.takeWhile (· ≠ 58)
  match text.drop quad.length with
  | 58 :: port =>
    if (parts quad).length = 4 && (parts quad).all isOctetText && port ≠ [] && port.all isDigit then
      some quad
    else none
  | _ => none

/-- Reads one entry of `X-Forwarded-For`. -/
def addressKey (raw : JsString) : Except JsString (Option AddressKey) :=
  let text := raw.trim
  if text.length = 0 || 64 < text.length then .ok none
  else
    -- a zone id is the name of a local interface
    let text := ((bracketed text).getD text).takeWhile (· ≠ 37)
    if text.contains 58 then
      match quadWithPort text with
      | some quad => .ok ((parseOctets quad).map .v4)
      | none => parseV6Key text
    else .ok ((parseOctets text).map .v4)

/-- The boundaries of the blocks of one family, and the country of the block each one opens. -/
structure CountryAxis where
  starts : List ℕ
  country : List ℕ

/-- The bundled table. A country is an index into `countries` that counts from 1. -/
structure CountryTable where
  countries : List JsString
  v4 : CountryAxis
  v6 : CountryAxis

/-- The loop of `floorIndex`. -/
def floorFrom (starts : List ℕ) (key : ℕ) (low high found : ℤ) : ℤ :=
  if low ≤ high then
    let middle := (low + high) / 2
    if starts.getD middle.toNat 0 ≤ key then floorFrom starts key (middle + 1) high middle
    else floorFrom starts key low (middle - 1) found
  else found
termination_by (high + 1 - low).toNat

/-- The index of the last boundary at or below `key`, or -1. -/
def floorIndex (starts : List ℕ) (key : ℕ) : ℤ := floorFrom starts key 0 (starts.length - 1) (-1)

def CountryTable.onAxis (table : CountryTable) (axis : CountryAxis) (key : ℕ) : Option JsString :=
  let at' := floorIndex axis.starts key
  if at' < 0 then none
  else match axis.country.getD at'.toNat 0 with
    | 0 => none
    | index + 1 => table.countries[index]?

def countryOfKey (table : CountryTable) : AddressKey → Option JsString
  | .v4 key => table.onAxis table.v4 key
  | .v6 key => table.onAxis table.v6 key

def isUpper (u : UInt16) : Bool := 65 ≤ u && u ≤ 90

/-- `/^[A-Z]{2}$/`. -/
def isCountryCode (s : JsString) : Bool := s.length = 2 && s.all isUpper

/-- `toUpperCase` on ASCII, which is what the codes of the table are. -/
def toUpperCase (s : JsString) : JsString := s.map (fun u ↦ if 97 ≤ u && u ≤ 122 then u - 32 else u)

def admitCountry (raw : Option JsString) : Option CountryCode :=
  (raw.map (fun raw ↦ toUpperCase raw.trim)).filter isCountryCode

/-- `BundledGeoLocator.countryOf`. -/
def countryOf (table : CountryTable) (address : JsString) : Except JsString (Option CountryCode) :=
  (addressKey address).map (·.bind (fun key ↦ admitCountry (countryOfKey table key)))

example : addressKey (js " 8.8.8.8:51000 ") = .ok (some (.v4 134744072)) := by decide
example : addressKey (js "[::ffff:8.8.8.8]:443") = .ok (some (.v4 134744072)) := by decide
example : addressKey (js "2001:db8::1") = .ok (some (.v6 0x20010db80000)) := by decide
example : addressKey (js "1:2:3:4:5:6:7:8:9::") = .error invalidArrayLength := by decide

end Counted.Ingestion
