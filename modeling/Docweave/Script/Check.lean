import Docweave.Frontmatter
import Docweave.Qualifier.Basic
import Docweave.Source.Sections

/-!
# Checking the script of a document

The script block of a document is given to a parser of its dialect, and what the parser finds is placed in
the document, not in the script (`checkWith`). Which parser that is, is left to the caller.
-/

namespace Docweave.Script

open Docweave.Text

/-- A problem in a script: its one-based line, the column in bytes, and what is wrong. -/
structure Issue where
  line : Nat
  column : Nat
  text : Text
deriving DecidableEq, Inhabited

/-- The issue in words. -/
def Issue.message (i : Issue) : Text := ofNat i.line ++ ":" ++ ofNat i.column ++ ": " ++ i.text

/-- Issues in words. -/
def issuesMessage (issues : List Issue) : Text := "script errors:\n" ++ join "\n" (issues.map Issue.message)

/-- The language a script is written in. -/
inductive Dialect
  | javascript | typescript
deriving DecidableEq, Inhabited

/-- The dialect that the attributes of a script block name. -/
def Dialect.ofAttrs (attrs : Text) : Dialect :=
  match Qualifier.lookup? attrs "lang" with
  | some lang => if lang = "ts" || lang = "tsx" then .typescript else .javascript
  | none => .javascript

/-- What a parser finds wrong with a script, and where, if it says so: a line of the script, from one, and a
column in bytes. -/
structure Finding where
  text : Text
  location : Option (Nat × Nat) := none
deriving DecidableEq, Inhabited

/-- A parser, as far as a check hears of it: what is wrong with a script of a dialect. -/
abbrev Parser := Dialect → Text → List Finding

/-- The finding as an issue of the document, with `offset` lines in front of the script. -/
def Finding.issue (offset : Nat) (f : Finding) : Issue :=
  match f.location with
  | some (line, column) => ⟨offset + line, column, f.text⟩
  | none => ⟨0, 0, f.text⟩

/-- Why a script does not pass. -/
inductive CheckFault
  | metadata (fault : MetaFault)
  | issues (found : List Issue)
deriving Inhabited

/-- The fault in words. -/
def CheckFault.message : CheckFault → Text
  | metadata f => "extracting frontmatter: " ++ f.message
  | issues found => issuesMessage found

/-- Checks the script block of a document with a parser. A document without a script passes. -/
def checkWith (parser : Parser) (src : Text) : Except CheckFault Unit :=
  match Frontmatter.parse src with
  | .error f => .error (.metadata f)
  | .ok fm =>
    let s := Source.sections fm.body
    if (trim s.script).isEmpty then .ok ()
    else
      match parser (.ofAttrs s.scriptAttrs) s.script with
      | [] => .ok ()
      | found => .error (.issues (found.map (Finding.issue (fm.bodyLine + s.scriptLine - 1))))

end Docweave.Script
