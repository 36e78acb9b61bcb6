import Docweave.Command.Flag
import Docweave.Yaml.Value

/-!
# Layers of configuration

A configuration is put together from layers of values by name. A later layer wins over an earlier one, name
by name; where both have a mapping, the mappings are merged the same way.
-/

namespace Docweave.Config

open Docweave.Yaml (Value)

/-- Values by name. -/
abbrev Layer := List (Text × Value)

/-- A key as a name. -/
def keyName : Value → Text
  | .null => "<nil>"
  | .bool b => Json.boolText b
  | .int i => Text.ofInt i
  | .float f => DecimalFormat.general.write f
  | .time t => t.text
  | .text t => t
  | .seq _ => []
  | .map _ _ => []

mutual

/-- A value whose mappings all have names for keys. -/
def withNames : Value → Value
  | .seq items => .seq (itemsWithNames items)
  | .map _ entries => .map true (entriesWithNames entries)
  | v => v

/-- Items whose mappings all have names for keys. -/
def itemsWithNames : List Value → List Value
  | [] => []
  | v :: vs => withNames v :: itemsWithNames vs

/-- Entries with names for keys. -/
def entriesWithNames : List (Value × Value) → List (Value × Value)
  | [] => []
  | (k, v) :: es => (.text (keyName k), withNames v) :: entriesWithNames es

end

/-- The value of a key. -/
def valueOf? (entries : List (Value × Value)) (key : Value) : Option Value :=
  (entries.find? fun e => e.1.sameKey key).map (·.2)

mutual

/-- A value over one of an earlier layer. -/
def overValue (earlier : Option Value) : Value → Value
  | .map t entries =>
    match earlier with
    | some (.map _ below) => .map true (overEntries below entries)
    | _ => .map t entries
  | v => v

/-- Entries over those of an earlier layer. -/
def overEntries (below : List (Value × Value)) : List (Value × Value) → List (Value × Value)
  | [] => below
  | (k, v) :: es => overEntries (Value.setEntry k (overValue (valueOf? below k) v) below) es

end

/-- The entries of a layer. -/
def Layer.entries (l : Layer) : List (Value × Value) := l.map fun (k, v) => (.text k, withNames v)

/-- A layer over an earlier one. -/
def Layer.over (l below : Layer) : Layer := Value.textEntries (overEntries below.entries l.entries)

/-- The value of a name. -/
def Layer.get? (l : Layer) (name : Text) : Option Value := (l.find? (·.1 = name)).map (·.2)

/-! ## Sources -/

/-- Sets a value under names that lead to it; what stands in the way as a plain value keeps its place. -/
def setPath (value : Value) : List Text → List (Value × Value) → List (Value × Value)
  | [], entries => entries
  | [name], entries => Value.setEntry (.text name) value entries
  | name :: names, entries =>
    match valueOf? entries (.text name) with
    | some (.map _ inner) => Value.setEntry (.text name) (.map true (setPath value names inner)) entries
    | some _ => setPath value names entries
    | none => Value.setEntry (.text name) (.map true (setPath value names [])) entries

/-- The start of the names of environment variables that configure. -/
def variableStart : Text := "MDV_"

/-- The layer of environment variables: `MDV_CACHE_DIR` sets `cache_dir`. A point in a name leads into a
mapping. -/
def ofEnvironment (environment : List (Text × Text)) : Layer :=
  let named := environment.filterMap fun (k, v) =>
    match Text.dropPrefix? variableStart k with
    | some (c :: t) => some ((c :: t).map Text.lowerChar, v)
    | _ => none
  Value.textEntries (named.foldl (fun es (k, v) => setPath (.text v) (Text.splitOn '.' k) es) [])

/-- The value of a flag in a layer. -/
def flagValue : FlagValue → Value
  | .toggle b => .bool b
  | .text t => .text t
  | .integer i => .int i
  | .duration d => .text d.text

/-- The layer of the flags that were set: `--cache-dir` sets `cache_dir`. -/
def ofFlags (p : ParsedLine) : Layer :=
  p.values.reverse.foldl (fun l (name, v) =>
    Layer.over [(Text.replaceChar '-' '_' name, flagValue v)] l) []

end Docweave.Config
