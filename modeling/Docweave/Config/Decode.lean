import Docweave.Compile
import Docweave.Config.Layer
import Docweave.Text.CaseFold

/-!
# Configurations from values

The values of a configuration are taken as what each setting needs, as far as they can be: a number will do
for a text, a text for a number. All that cannot be taken is reported together.
-/

namespace Docweave

/-- The configuration of a project. -/
structure Config where
  srcRoot : Text := []
  cacheDir : Text := []
  skipCleanup : Bool := false
  workers : Int := 0
  theme : Text := []
  codeBlock : Text := []
  components : List (Text × Text) := []
  scriptAttrs : Text := []
  checkScript : Bool := false
  debug : Bool := false
  /-- The file it was read from; empty when there was none. -/
  file : Text := []
deriving Inhabited

namespace Config

open Docweave.Yaml (Value)

/-- Why a value cannot be taken. -/
inductive FieldProblem
  /-- A value of one kind where another is needed. -/
  | unconvertible (expected got : Text)
  | unreadable (expected cause : Text)
deriving DecidableEq, Inhabited

/-- A setting whose value cannot be taken. -/
structure FieldFault where
  name : Text
  problem : FieldProblem
deriving DecidableEq, Inhabited

/-- The fault in words. -/
def FieldFault.message (f : FieldFault) : Text :=
  "'" ++ f.name ++ "' " ++
    match f.problem with
    | .unconvertible expected got => "expected type '" ++ expected ++ "', got unconvertible type '" ++ got ++ "'"
    | .unreadable expected cause => "cannot parse value as '" ++ expected ++ "': " ++ cause

/-- The name of the kind of a value. -/
def kindName : Value → Text
  | .null => "nil"
  | .bool _ => "bool"
  | .int i => if i < Nat.pow 2 63 then "int" else "uint64"
  | .float _ => "float64"
  | .time _ => "time.Time"
  | .text _ => "string"
  | .seq _ => "[]interface \x7b\x7d"
  | .map _ _ => "map[string]interface \x7b\x7d"

/-- A value of the wrong kind. -/
def unconvertible (name expected : Text) (v : Value) : FieldFault := ⟨name, .unconvertible expected (kindName v)⟩

/-- The integer that a number is cut to; numbers that do not fit become the least one. -/
def cutToInteger : Binary64 → Int
  | .finite negative m e =>
    let n : Nat := m * Nat.pow 2 e.toNat / Nat.pow 2 (-e).toNat
    let i : Int := if negative then -(n : Int) else n
    if -(Nat.pow 2 63) ≤ i && i < Nat.pow 2 63 then i else -(Nat.pow 2 63)
  | _ => -(Nat.pow 2 63)

/-- A number other than zero. -/
def isNonzero : Binary64 → Bool
  | .finite _ m _ => m ≠ 0
  | _ => true

/-- A value as a text. -/
def asText (name : Text) (v : Value) : Except FieldFault Text :=
  match v with
  | .null => .ok []
  | .text t => .ok t
  | .bool b => .ok (if b then "1" else "0")
  | .int i => .ok (Text.ofInt i)
  | .float f => .ok (DecimalFormat.plain.write f)
  | v => .error (unconvertible name "string" v)

/-- A value as an integer. -/
def asInteger (name : Text) (v : Value) : Except FieldFault Int :=
  match v with
  | .null => .ok 0
  | .int i => .ok (Int.bmod i (Nat.pow 2 64))
  | .float f => .ok (cutToInteger f)
  | .bool b => .ok (if b then 1 else 0)
  | .text t =>
    if t.isEmpty then .ok 0
    else
      match Integer.parse t with
      | .ok i => .ok i
      | .error e => .error ⟨name, .unreadable "int" ("strconv.ParseInt: " ++ e.text)⟩
  | v => .error (unconvertible name "int" v)

/-- A value as on or off. -/
def asBool (name : Text) (v : Value) : Except FieldFault Bool :=
  match v with
  | .null => .ok false
  | .bool b => .ok b
  | .int i => .ok (i ≠ 0)
  | .float f => .ok (isNonzero f)
  | .text t =>
    if t.isEmpty then .ok false
    else
      match truth? t with
      | some b => .ok b
      | none => .error ⟨name, .unreadable "bool" "strconv.ParseBool: invalid syntax"⟩
  | v => .error (unconvertible name "bool" v)

/-- Sets the text of a name. -/
def setText (name text : Text) (entries : List (Text × Text)) : List (Text × Text) :=
  entries.filter (fun e => e.1 ≠ name) ++ [(name, text)]

/-- The name of an entry of a setting. -/
def entryName (name key : Text) : Text := name ++ "[" ++ key ++ "]"

/-- Texts by name, over those that are there. Gives what could be taken and what not. -/
def addTexts (name : Text) (start : List (Text × Text)) :
    List (Text × Value) → List (Text × Text) × List FieldFault
  | [] => (start, [])
  | (k, v) :: es =>
    match asText (entryName name k) v with
    | .ok t => addTexts name (setText k t start) es
    | .error f =>
      match addTexts name start es with
      | (texts, faults) => (texts, f :: faults)

mutual

/-- A value as texts by name, over those that are there. A sequence of mappings is taken as one. -/
def addMapping (name : Text) (start : List (Text × Text)) : Value → List (Text × Text) × List FieldFault
  | .null => (start, [])
  | .time _ => (start, [])
  | .map _ entries => addTexts name start (Value.textEntries entries)
  | .seq items => addMappings name 0 start items
  | v => (start, [unconvertible name "map[string]string" v])

/-- The mappings of a sequence, up to the first that cannot be taken. -/
def addMappings (name : Text) (i : Nat) (start : List (Text × Text)) :
    List Value → List (Text × Text) × List FieldFault
  | [] => (start, [])
  | v :: vs =>
    match addMapping (entryName name (Text.ofNat i)) start v with
    | (texts, []) => addMappings name (i + 1) texts vs
    | (texts, faults) => (texts, faults)

end

/-- The value of a setting: under its name, or else under one that differs in letter case only. -/
def Layer.lookup (l : Layer) (name : Text) : Value :=
  match l.get? name with
  | some v => v
  | none => ((l.find? fun e => Text.dropPrefixFold? name e.1 = some []).map (·.2)).getD .null

/-- The faults of a value. -/
def faultOf {α : Type} : Except FieldFault α → List FieldFault
  | .ok _ => []
  | .error f => [f]

/-- A configuration from values, or everything that cannot be taken, in the order of the settings. -/
def ofLayer (l : Layer) : Except (List FieldFault) Config :=
  let srcRoot := asText "src_root" (l.lookup "src_root")
  let cacheDir := asText "cache_dir" (l.lookup "cache_dir")
  let skipCleanup := asBool "skip_cleanup" (l.lookup "skip_cleanup")
  let workers := asInteger "workers" (l.lookup "workers")
  let theme := asText "theme" (l.lookup "theme")
  let codeBlock := asText "code_block_component" (l.lookup "code_block_component")
  let components := addMapping "custom_components" [] (l.lookup "custom_components")
  let scriptAttrs := asText "script_setup_props" (l.lookup "script_setup_props")
  let checkScript := asBool "check_script" (l.lookup "check_script")
  let debug := asBool "debug" (l.lookup "debug")
  let faults := faultOf srcRoot ++ faultOf cacheDir ++ faultOf skipCleanup ++ faultOf workers ++ faultOf theme ++
    faultOf codeBlock ++ components.2 ++ faultOf scriptAttrs ++ faultOf checkScript ++ faultOf debug
  if !faults.isEmpty then .error faults
  else
    .ok { srcRoot := srcRoot.toOption.getD [], cacheDir := cacheDir.toOption.getD []
          skipCleanup := skipCleanup.toOption.getD false, workers := workers.toOption.getD 0
          theme := theme.toOption.getD [], codeBlock := codeBlock.toOption.getD [], components := components.1
          scriptAttrs := scriptAttrs.toOption.getD [], checkScript := checkScript.toOption.getD false
          debug := debug.toOption.getD false }

end Config

end Docweave
