import Docweave.Markdown.Draft

/-!
# List markers and rules

The line patterns that decide where lists, items, rules and underlined headings begin.
-/

namespace Docweave.Markdown

open Docweave.Text

/-- A list marker at the front of a line. -/
structure ListMarker where
  /-- Spaces in front of the marker. -/
  indent : Nat
  /-- Number of characters up to and with the marker. -/
  width : Nat
  /-- The bullet, or the character behind the number. -/
  mark : Char
  /-- The number of an ordered item. -/
  number : Option Nat
  /-- The line behind the marker. -/
  tail : Text
deriving Inhabited

namespace ListMarker

/-- The marker a line starts with, if any. A marker is followed by a blank or ends the line. -/
def ofLine? (line : Text) : Option ListMarker :=
  let indent := (line.takeWhile (· = ' ')).length
  let t := line.drop indent
  if indent > 3 then none
  else
    match t with
    | [] => none
    | c :: r =>
      if c = '-' || c = '*' || c = '+' then finish indent (indent + 1) c none r
      else
        let digits := t.takeWhile isDigit
        if digits.isEmpty || digits.length > 9 then none
        else match t.dropWhile isDigit with
          | d :: r =>
            if d = '.' || d = ')' then
              finish indent (indent + digits.length + 1) d (some (digitsValue digits)) r
            else none
          | [] => none
where
  finish (indent width : Nat) (mark : Char) (number : Option Nat) (tail : Text) : Option ListMarker :=
    match tail with
    | c :: _ => if c = '\n' || c = ' ' || c = '\t' then some ⟨indent, width, mark, number, tail⟩ else none
    | [] => some ⟨indent, width, mark, number, tail⟩

/-- Nothing but blanks follows the marker. -/
def isBare (m : ListMarker) : Bool := isBlank m.tail

/-- Columns between the marker and the content of the item. More than four mean that the content is
indented code and the marker takes one column only. -/
def contentGap (m : ListMarker) : Nat :=
  if m.isBare then 1
  else
    let w := (indentation m.width m.tail).1
    if w > 4 then 1 else w

end ListMarker

/-- A line of at least three equal marks with blanks between them. -/
def isRule (column : Nat) (line : Text) : Bool :=
  let marks := (line.drop (indentation column line).2).filter fun c => !isBlankAscii c
  (indentation column line).1 ≤ 3 &&
    match marks with
    | c :: r => (c = '*' || c = '-' || c = '_') && r.all (· = c) && r.length ≥ 2
    | [] => false

/-- The level of the heading that a line of `=` or `-` makes of the paragraph above it. -/
def underlineLevel? (line : Text) : Option Nat :=
  let indent := (line.takeWhile (· = ' ')).length
  let t := trimRight isBlankAscii (line.drop indent)
  if indent > 3 then none
  else
    match t with
    | '=' :: r => if r.all (· = '=') then some 1 else none
    | '-' :: r => if r.all (· = '-') then some 2 else none
    | _ => none

end Docweave.Markdown
