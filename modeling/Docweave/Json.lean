import Docweave.Text.JsonString

/-!
# JSON values

A value of JSON and its texts: `write` on one line, `writeIndented` with one entry a line. Numbers are kept
as they are written.
-/

namespace Docweave

/-- A value of JSON. -/
inductive Json
  | null
  | bool (value : Bool)
  /-- A number by its text. -/
  | number (literal : Text)
  | string (text : Text)
  | array (items : List Json)
  | object (entries : List (Text × Json))
deriving Inhabited

namespace Json

/-- The text of `true` and `false`. -/
def boolText (b : Bool) : Text := if b then "true" else "false"

/-- A newline and `depth` steps of indentation. -/
def newLine (indent : Text) (depth : Nat) : Text := '\n' :: (List.replicate depth indent).flatten

mutual

/-- A value inside markup, its entries on lines of their own. Empty arrays and objects stay on one line. -/
def writeIndented (indent : Text) (depth : Nat) : Json → Text
  | null => "null"
  | bool b => boolText b
  | number t => t
  | string t => Text.markupJsonString t
  | array [] => "[]"
  | array (v :: vs) =>
    "[" ++ newLine indent (depth + 1) ++ writeIndented indent (depth + 1) v ++
      writeItems indent (depth + 1) vs ++ newLine indent depth ++ "]"
  | object [] => "\x7b\x7d"
  | object ((k, v) :: es) =>
    "\x7b" ++ newLine indent (depth + 1) ++ Text.markupJsonString k ++ ": " ++
      writeIndented indent (depth + 1) v ++ writeEntries indent (depth + 1) es ++ newLine indent depth ++ "\x7d"

/-- The items of an array behind its first. -/
def writeItems (indent : Text) (depth : Nat) : List Json → Text
  | [] => []
  | v :: vs => "," ++ newLine indent depth ++ writeIndented indent depth v ++ writeItems indent depth vs

/-- The entries of an object behind its first. -/
def writeEntries (indent : Text) (depth : Nat) : List (Text × Json) → Text
  | [] => []
  | (k, v) :: es =>
    "," ++ newLine indent depth ++ Text.markupJsonString k ++ ": " ++ writeIndented indent depth v ++
      writeEntries indent depth es

end

mutual

/-- A value on one line. -/
def write : Json → Text
  | null => "null"
  | bool b => boolText b
  | number t => t
  | string t => Text.jsonString t
  | array [] => "[]"
  | array (v :: vs) => "[" ++ write v ++ writeMore vs ++ "]"
  | object [] => "\x7b\x7d"
  | object ((k, v) :: es) => "\x7b" ++ Text.jsonString k ++ ":" ++ write v ++ writeMoreEntries es ++ "\x7d"

/-- The items of an array behind its first, on one line. -/
def writeMore : List Json → Text
  | [] => []
  | v :: vs => "," ++ write v ++ writeMore vs

/-- The entries of an object behind its first, on one line. -/
def writeMoreEntries : List (Text × Json) → Text
  | [] => []
  | (k, v) :: es => "," ++ Text.jsonString k ++ ":" ++ write v ++ writeMoreEntries es

end

/-- The entry of an object under a name; of two with the same name the last. -/
def get? (j : Json) (name : Text) : Option Json :=
  match j with
  | object entries => (entries.reverse.find? (·.1 = name)).map (·.2)
  | _ => none

end Json

end Docweave
