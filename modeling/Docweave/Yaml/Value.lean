import Docweave.Json
import Docweave.Number.Decimal
import Docweave.Text.Quoted
import Docweave.Yaml.Timestamp

/-!
# Values of YAML

What a document decodes to. The keys of a mapping are values; most mappings have texts for keys.
-/

namespace Docweave.Yaml

/-- A decoded value. -/
inductive Value
  | null
  | bool (value : Bool)
  | int (value : Int)
  | float (value : Binary64)
  | time (value : Timestamp)
  | text (value : Text)
  | seq (items : List Value)
  /-- A mapping, and whether all of its keys were texts where it was written. -/
  | map (textKeys : Bool) (entries : List (Value × Value))
deriving Inhabited

namespace Value

/-- Two values are the same key. A number that is none is no key twice. -/
def sameKey : Value → Value → Bool
  | null, null => true
  | bool a, bool b => a = b
  | int a, int b => a = b
  | float a, float b => a ≠ .nan && a = b
  | time a, time b => a = b
  | text a, text b => a = b
  | _, _ => false

/-- Entries with the value of a key set. -/
def setEntry (key value : Value) : List (Value × Value) → List (Value × Value)
  | [] => [(key, value)]
  | e :: es => if sameKey e.1 key then (key, value) :: es else e :: setEntry key value es

/-- The entries of a mapping whose key is a text. -/
def textEntries (entries : List (Value × Value)) : List (Text × Value) :=
  entries.filterMap fun (k, v) =>
    match k with
    | text t => some (t, v)
    | _ => none

end Value

/-- Why a value has no text in JSON. -/
inductive JsonFault
  | notANumber | infinite (negative : Bool) | mixedKeys | zoneOutOfRange
deriving DecidableEq, Inhabited

/-- The fault in words. -/
def JsonFault.message : JsonFault → Text
  | notANumber => "json: unsupported value: NaN"
  | infinite negative => "json: unsupported value: " ++ (if negative then "-Inf" else "+Inf")
  | mixedKeys => "json: unsupported type: map[interface \x7b\x7d]interface \x7b\x7d"
  | zoneOutOfRange =>
    "json: error calling MarshalJSON for type time.Time: Time.MarshalJSON: timezone hour outside of range [0,23]"

namespace Value

/-- Entries in the order of their names. -/
def sortEntries {α : Type} (entries : List (Text × α)) : List (Text × α) :=
  entries.mergeSort fun a b => Text.le a.1 b.1

/-- Entries, when none of them has a fault; otherwise the fault of the first. -/
def sequenceEntries : List (Text × Except JsonFault Json) → Except JsonFault (List (Text × Json))
  | [] => .ok []
  | (k, .ok j) :: es => (sequenceEntries es).map ((k, j) :: ·)
  | (_, .error e) :: _ => .error e

mutual

/-- The value in JSON. Mappings are in the order of their names. -/
def toJson : Value → Except JsonFault Json
  | null => .ok .null
  | bool b => .ok (.bool b)
  | int i => .ok (.number (Text.ofInt i))
  | float .nan => .error .notANumber
  | float (.infinite n) => .error (.infinite n)
  | float f => .ok (.number (DecimalFormat.json.write f))
  | time t => if t.offset.natAbs ≥ 24 * 60 then .error .zoneOutOfRange else .ok (.string t.text)
  | text t => .ok (.string t)
  | seq items => (itemsToJson items).map .array
  | map textKeys entries =>
    if textKeys then (sequenceEntries (sortEntries (entriesToJson entries))).map .object
    else .error .mixedKeys

/-- The items of a sequence in JSON. -/
def itemsToJson : List Value → Except JsonFault (List Json)
  | [] => .ok []
  | v :: vs =>
    match toJson v, itemsToJson vs with
    | .ok j, .ok js => .ok (j :: js)
    | .error e, _ => .error e
    | _, .error e => .error e

/-- The entries of a mapping by name, each in JSON or with its fault. -/
def entriesToJson : List (Value × Value) → List (Text × Except JsonFault Json)
  | [] => []
  | (text t, v) :: es => (t, toJson v) :: entriesToJson es
  | _ :: es => entriesToJson es

end

end Value

end Docweave.Yaml
