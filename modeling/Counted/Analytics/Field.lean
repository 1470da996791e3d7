import Counted.Kernel.NumberText
import Counted.Kernel.Json

namespace Counted.Analytics

/-- The closed set of attributes Counted itself records. -/
inductive DimensionName
  | eventType | osName | osVersion | locale | appVersion | deviceModel | sdkVersion | country
  deriving DecidableEq

def DimensionName.text : DimensionName → JsString
  | .eventType => js "event_type"
  | .osName => js "os_name"
  | .osVersion => js "os_version"
  | .locale => js "locale"
  | .appVersion => js "app_version"
  | .deviceModel => js "device_model"
  | .sdkVersion => js "sdk_version"
  | .country => js "country"

/-- `DIMENSIONS`, all of which are collected. -/
def dimensions : List DimensionName :=
  [.eventType, .osName, .osVersion, .locale, .appVersion, .deviceModel, .sdkVersion, .country]

def isDimensionName (key : JsString) : Bool := dimensions.any (fun d ↦ d.text == key)

inductive FieldRef
  | dimension (name : DimensionName)
  | property (key : JsString)
  deriving DecidableEq

namespace FieldRef

def key : FieldRef → JsString
  | .dimension d => d.text
  | .property k => k

/-- Reads an untrusted field name. -/
def parse (key : JsString) : FieldRef :=
  ((dimensions.find? (fun d ↦ d.text == key)).map FieldRef.dimension).getD (.property key)

def toKey : FieldRef → JsString
  | .dimension d => js "dim:" ++ d.text
  | .property k => js "prop:" ++ k

/-- A customer property whose name is already one of our dimensions. -/
def isShadowed : FieldRef → Bool
  | .dimension _ => false
  | .property k => isDimensionName k

end FieldRef

inductive ScalarValue
  | str (s : JsString)
  | num (n : JsNumber)
  | bool (b : Bool)
  | null
  deriving DecidableEq

structure DimensionCatalog where
  indexed : List JsString
  planned : List JsString
  scanned : List JsString := []

inductive DimensionStatus
  | indexed | planned | scanned | unknown
  deriving DecidableEq

namespace DimensionCatalog

def status (c : DimensionCatalog) (key : JsString) : DimensionStatus :=
  if c.indexed.contains key then .indexed
  else if c.scanned.contains key then .scanned
  else if c.planned.contains key then .planned
  else .unknown

end DimensionCatalog

/-- `DEFAULT_CATALOG`, which is also the catalog of every deployment. -/
def defaultCatalog : DimensionCatalog := ⟨dimensions.map DimensionName.text, [], []⟩

theorem DimensionName.text_injective : Function.Injective DimensionName.text := by
  have hd : (dimensions.map DimensionName.text).Nodup := by decide
  have hm (d : DimensionName) : d ∈ dimensions := by cases d <;> decide
  intro a b h
  exact List.inj_on_of_nodup_map hd (hm a) (hm b) h

theorem DimensionName.isDimensionName (d : DimensionName) :
    Analytics.isDimensionName d.text = true := by
  cases d <;> decide

theorem isDimensionName_iff {key : JsString} :
    isDimensionName key = true ↔ ∃ d : DimensionName, d.text = key := by
  constructor
  · intro h
    obtain ⟨d, -, hd⟩ := List.any_eq_true.1 h
    exact ⟨d, beq_iff_eq.1 hd⟩
  · rintro ⟨d, rfl⟩
    exact d.isDimensionName

end Counted.Analytics
