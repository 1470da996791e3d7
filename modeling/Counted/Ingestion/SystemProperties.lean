import Counted.Ingestion.Batch

namespace Counted.Ingestion

inductive OsName
  | macos | windows | linux | ios | ipados | android | tvos | watchos | visionos | chromeos
  | freebsd | other
  deriving DecidableEq

def OsName.text : OsName → JsString
  | .macos => js "macos"
  | .windows => js "windows"
  | .linux => js "linux"
  | .ios => js "ios"
  | .ipados => js "ipados"
  | .android => js "android"
  | .tvos => js "tvos"
  | .watchos => js "watchos"
  | .visionos => js "visionos"
  | .chromeos => js "chromeos"
  | .freebsd => js "freebsd"
  | .other => js "other"

/-- `OS_ALIASES`, keyed by the folded spelling. -/
def osAliases : List (JsString × OsName) :=
  [(js "macos", .macos), (js "macosx", .macos), (js "mac", .macos), (js "darwin", .macos),
    (js "osx", .macos), (js "windows", .windows), (js "win", .windows), (js "win32", .windows),
    (js "win64", .windows), (js "winnt", .windows), (js "linux", .linux), (js "gnulinux", .linux),
    (js "ubuntu", .linux), (js "debian", .linux), (js "fedora", .linux), (js "arch", .linux),
    (js "ios", .ios), (js "iphoneos", .ios), (js "iphone", .ios), (js "ipados", .ipados),
    (js "ipad", .ipados), (js "android", .android), (js "tvos", .tvos), (js "appletvos", .tvos),
    (js "watchos", .watchos), (js "visionos", .visionos), (js "xros", .visionos),
    (js "chromeos", .chromeos), (js "chromiumos", .chromeos), (js "cros", .chromeos),
    (js "freebsd", .freebsd), (js "openbsd", .freebsd), (js "netbsd", .freebsd),
    (js "other", .other), (js "unknown", .other)]

/-- `toLowerCase` on ASCII. No other letter folds to a letter an alias is spelled with: the
Kelvin sign folds to `k`, and
`unknown`, the only alias with a `k`, has the value an unlisted spelling gets. -/
def toLowerCase (s : JsString) : JsString := s.map (fun u ↦ if 65 ≤ u && u ≤ 90 then u + 32 else u)

/-- Lowercase, without the separators `[\s._-]`. -/
def fold (s : JsString) : JsString :=
  (toLowerCase s).filter (fun u ↦ !(JsString.isSpace u || u == 46 || u == 95 || u == 45))

/-- What indexing the alias table gives: one of its values, or a function the table object
inherits from `Object.prototype`. -/
inductive OsValue
  | name (n : OsName)
  | inherited (method : JsString)
  deriving DecidableEq

structure CanonicalOsName where
  osName : OsValue
  osNameRaw : Option JsString
  deriving DecidableEq

def canonicalOsName : Option JsString → CanonicalOsName
  | none => ⟨.name .other, none⟩
  | some raw =>
    let trimmed := raw.trim
    if trimmed.length = 0 then ⟨.name .other, none⟩
    else match JsObject.get osAliases (fold trimmed) with
      | some n => ⟨.name n, if trimmed = n.text then none else some trimmed⟩
      | none =>
        if fold trimmed ∈ JsObject.inherited then ⟨.inherited (fold trimmed), some trimmed⟩
        else ⟨.name .other, if trimmed = OsName.other.text then none else some trimmed⟩

structure SystemProperties where
  osName : OsValue
  osNameRaw : Option JsString
  osVersion : Option JsString
  locale : Option JsString
  appVersion : Option JsString
  deviceModel : Option JsString
  sdkVersion : Option JsString
  country : Option CountryCode
  deriving DecidableEq

def maxSystemValueLength : ℕ := 128

/-- Truncated rather than refused. The cut is by code unit. -/
def asBoundedString : Option Json → Option JsString
  | some (.str value) =>
    let trimmed := value.trim
    if trimmed.length = 0 then none else some (trimmed.take maxSystemValueLength)
  | _ => none

def normaliseSystemProperties (raw : Option Json) (country : Option CountryCode) :
    SystemProperties :=
  let source := (raw.bind Json.plainObject).getD []
  let value := fun name ↦ asBoundedString (JsObject.get source (js name))
  let os := canonicalOsName (value "os_name")
  { osName := os.osName
    osNameRaw := os.osNameRaw
    osVersion := value "os_version"
    locale := value "locale"
    appVersion := value "app_version"
    deviceModel := value "device_model"
    sdkVersion := value "sdk_version"
    country }

end Counted.Ingestion
