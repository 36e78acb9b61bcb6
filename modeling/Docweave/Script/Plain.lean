import Docweave.Script.Check

/-!
# Scripts without a grammar

`plainParser` stands in where no parser of the language is at hand. It knows comments and strings, and finds
one thing only: a semicolon where the value of a declaration is due.
-/

namespace Docweave.Script

open Docweave.Text

/-- What surrounds a place of a script. -/
inductive Mode
  | code
  /-- Behind an equals sign and blanks. -/
  | value
  | lineComment | blockComment
  /-- Inside a string with this quote. -/
  | string (mark : Char)
deriving DecidableEq

/-- Characters that end a line. -/
def isLineEnd (c : Char) : Bool := c = '\n' || c = '\r' || c.toNat = 0x2028 || c.toNat = 0x2029

/-- The mode behind the character `c`, where `next` follows it. -/
def Mode.step (m : Mode) (c : Char) (next : Option Char) : Mode :=
  match m with
  | lineComment => if isLineEnd c then code else lineComment
  | blockComment => if c = '*' && next = some '/' then code else blockComment
  | string mark => if c = mark then code else string mark
  | _ =>
    if c = '/' && next = some '/' then lineComment
    else if c = '/' && next = some '*' then blockComment
    else if c = quote || c = apostrophe || c = backtick then string c
    else if c = '=' then value
    else if m = value && isSpace c then value
    else code

/-- A place in a text: its line, from one, and its column in bytes. -/
structure Place where
  line : Nat := 1
  column : Nat := 0
  /-- The character in front was a carriage return. -/
  afterReturn : Bool := false

/-- The place behind a character. A carriage return and the newline behind it end one line. -/
def Place.step (p : Place) (c : Char) : Place :=
  if c = '\n' then ⟨if p.afterReturn then p.line else p.line + 1, 0, false⟩
  else if isLineEnd c then ⟨p.line + 1, 0, c = '\r'⟩
  else ⟨p.line, p.column + c.utf8Size, false⟩

/-- The first semicolon that stands where a value is due. -/
def missingValue? (m : Mode) (p : Place) : Text → Option Place
  | [] => none
  | c :: t =>
    if m = .value && c = ';' then some p
    else if (match m with | .string _ => true | _ => false) && c = '\\' then
      match t with
      | d :: t => missingValue? m ((p.step c).step d) t
      | [] => none
    else missingValue? (m.step c t.head?) (p.step c) t

/-- The parser that reads a script of either dialect for a missing value. -/
def plainParser : Parser := fun _ script =>
  match missingValue? .code {} script with
  | some p => [⟨"Unexpected \";\"", some (p.line, p.column)⟩]
  | none => []

end Docweave.Script
