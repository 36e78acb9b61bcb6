import Docweave.Markdown.Segment

/-!
# The block cursor

Blocks are read line by line. The cursor stands inside one line, behind the container markers that the
open blocks have taken from it; the lines below wait in order.
-/

namespace Docweave.Markdown

/-- A position inside a line of the source. -/
structure Cursor where
  /-- Zero-based number of the current line. -/
  row : Nat
  /-- Offset of the start of the current line in the source. -/
  lineStart : Nat
  /-- The whole current line with its newline; empty behind the last line. -/
  line : Text
  /-- Number of its characters already taken. -/
  used : Nat
  /-- Columns left over from a tab that was taken in part. -/
  padding : Nat
  /-- The lines below. -/
  later : List Text

namespace Cursor

/-- The cursor in front of the first line. -/
def ofText (t : Text) : Cursor :=
  match Text.linesWithEnds t with
  | [] => ⟨0, 0, [], 0, 0, []⟩
  | l :: ls => ⟨0, 0, l, 0, 0, ls⟩

/-- The characters of the current line that are not taken yet. -/
def rest (c : Cursor) : Text := c.line.drop c.used

/-- Nothing is left to read. -/
def atEnd (c : Cursor) : Bool := c.rest.isEmpty

/-- The rest of the line with its padding as spaces. -/
def text (c : Cursor) : Text := if c.atEnd then [] else Text.spaces c.padding ++ c.rest

/-- The rest of the line as a segment. -/
def segment (c : Cursor) : Segment :=
  { row := c.row
    start := c.lineStart + c.used
    before := ((c.line.take c.used).getLast?).getD '\n'
    text := c.rest
    padding := c.padding }

/-- The column at which the rest of the line starts, padding included. -/
def column (c : Cursor) : Nat := columnsFrom 0 (c.line.take c.used) - c.padding

/-- The start of the next line. -/
def nextLine (c : Cursor) : Cursor :=
  match c.later with
  | [] => ⟨c.row + 1, c.lineStart + c.line.length, [], 0, 0, []⟩
  | l :: ls => ⟨c.row + 1, c.lineStart + c.line.length, l, 0, 0, ls⟩

/-- `n` characters on; a newline that is passed leads to the next line. -/
def advance : Nat → Cursor → Cursor
  | 0, c => c
  | n + 1, c =>
    if c.padding > 0 then advance n { c with padding := c.padding - 1 }
    else match c.rest with
      | [] => c
      | '\n' :: _ => advance n c.nextLine
      | _ :: _ => advance n { c with used := c.used + 1 }

/-- `n` characters on, with at least the given padding left. -/
def advancePadded (n padding : Nat) (c : Cursor) : Cursor :=
  let c := c.advance n
  { c with padding := max c.padding padding }

/-- The first line that is not blank, and how many blank ones were passed. -/
def skipBlankLines (c : Cursor) : Nat × Cursor :=
  go 0 c (c.later.length + 1)
where
  go (n : Nat) (c : Cursor) : Nat → Nat × Cursor
  | 0 => (n, c)
  | fuel + 1 =>
    if c.atEnd then (n, c)
    else if Text.isBlank c.text then go (n + 1) c.nextLine fuel
    else (n, c)

end Cursor

end Docweave.Markdown
