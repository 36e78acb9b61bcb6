import Docweave.Text.Space

/-!
# Imports of a script

The import statements of a script are moved to the top of the generated one. A statement starts on a line
that begins with `import` and goes on until the lines taken together end like an import: in a quoted module
name behind `from`, or behind `import` itself.
-/

namespace Docweave.Script

open Docweave.Text

/-- Either quote. -/
def isQuote (c : Char) : Bool := c = quote || c = apostrophe

/-- Word characters. -/
def isWordChar (c : Char) : Bool := isAlphanumeric c || c = '_'

/-- The reversed text in front of the module name that ends a statement, the blanks between them left out.
A semicolon may follow the name. -/
def beforeModuleName? (reversed : Text) : Option Text :=
  let t := reversed.dropWhile isPatternSpace
  let t := if t.head? = some ';' then t.tail.dropWhile isPatternSpace else t
  match t with
  | c :: t =>
    if isQuote c then
      match t.dropWhile (!isQuote ·) with
      | _ :: t => some (t.dropWhile isPatternSpace)
      | [] => none
    else none
  | [] => none

/-- The statement ends like an import. -/
def endsImport (statement : Text) : Bool :=
  match beforeModuleName? statement.reverse with
  | none => false
  | some t =>
    match dropPrefix? "morf" t with
    | some rest => !(rest.head?.map isWordChar).getD false
    | none => t = "tropmi"

/-- The line starts an import. -/
def startsImport (line : Text) : Bool := startsWith line "import " || startsWith line "import\x7b"

/-- What has been read of a script: finished imports, other lines, and the lines of an import that is not
finished, each oldest first. -/
structure ImportScan where
  imports : List Text := []
  code : List Text := []
  pending : List Text := []

/-- Reads one more line. -/
def ImportScan.see (s : ImportScan) (line : Text) : ImportScan :=
  let trimmed := trim line
  if !s.pending.isEmpty then
    let pending := s.pending ++ [line]
    if endsImport (join " " pending) then
      { s with imports := s.imports ++ [join "\n" pending], pending := [] }
    else { s with pending := pending }
  else if startsImport trimmed then
    if endsImport trimmed then { s with imports := s.imports ++ [trimmed] }
    else { s with pending := [trimmed] }
  else { s with code := s.code ++ [line] }

/-- The imports of a script and the rest of its code. An import that never ends stays with the code. -/
def splitImports (script : Text) : List Text × Text :=
  let s := (lines script).foldl ImportScan.see {}
  (s.imports, trimBoth (· = '\n') (join "\n" (s.code ++ s.pending)))

end Docweave.Script
