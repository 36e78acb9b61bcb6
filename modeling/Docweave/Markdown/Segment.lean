import Docweave.Text.Space

/-!
# Segments

A segment is a piece of one source line that remembers where it was cut out: the row, the offset in
the source and the character in front of it. Blocks keep their text as segments, so that every line
number and every neighbour a later stage asks for is still known.
-/

namespace Docweave.Markdown

/-- A piece of one line of the source. -/
structure Segment where
  /-- Zero-based number of the source line. -/
  row : Nat
  /-- Offset of the first character in the source. -/
  start : Nat
  /-- The source character in front of the piece, a newline at the start of a line. -/
  before : Char
  /-- The characters of the piece. -/
  text : Text
  /-- Columns of a tab that was cut in two; they stand in front as spaces. -/
  padding : Nat := 0
  /-- The last line of a code block gets the newline that the source may lack. -/
  closesLine : Bool := false
deriving Inhabited

namespace Segment

/-- Offset just behind the piece. -/
def stop (s : Segment) : Nat := s.start + s.text.length

/-- The text with its padding in front and its newline behind. -/
def value (s : Segment) : Text :=
  let t := Text.spaces s.padding ++ s.text
  if s.closesLine && !t.isEmpty && t.getLast? != some '\n' then t ++ ['\n'] else t

/-- The piece from its `n`-th character on. -/
def drop (n : Nat) (s : Segment) : Segment :=
  { s with
    start := s.start + min n s.text.length
    before := match n with
      | 0 => s.before
      | m + 1 => (s.text.take (m + 1)).getLast?.getD s.before
    text := s.text.drop n }

/-- The first `n` characters of the piece. -/
def take (n : Nat) (s : Segment) : Segment := { s with text := s.text.take n }

/-- The piece without blanks and padding in front. -/
def trimLeft (s : Segment) : Segment :=
  { s.drop (s.text.takeWhile Text.isBlankAscii).length with padding := 0, closesLine := false }

/-- The piece without blanks at its end. -/
def trimRight (s : Segment) : Segment :=
  if Text.isBlank s.text then { s with text := [], padding := 0, closesLine := false }
  else { s with text := Text.trimRight Text.isBlankAscii s.text, closesLine := false }

/-- The piece without blanks at either end. -/
def trim (s : Segment) : Segment := s.trimLeft.trimRight

end Segment

/-! ## Columns -/

/-- Columns a tab covers when it starts at the given column; tab stops are four columns apart. -/
def tabWidth (column : Nat) : Nat := 4 - column % 4

/-- The column behind a text that starts at column `from'`. -/
def columnsFrom (from' : Nat) : Text → Nat
  | [] => from'
  | c :: t => columnsFrom (if c = '\t' then from' + tabWidth from' else from' + c.utf8Size) t

/-- Width of the leading spaces and tabs of a line that starts at column `from'`, and their number. -/
def indentation (from' : Nat) (line : Text) : Nat × Nat :=
  go 0 0 line
where
  go (width count : Nat) : Text → Nat × Nat
  | ' ' :: t => go (width + 1) (count + 1) t
  | '\t' :: t => go (width + tabWidth (from' + width)) (count + 1) t
  | _ => (width, count)

/-- Where the indentation of a line reaches `width` columns: the number of characters in front and the
columns by which a tab reaches further. The first `padding` spaces of the line are padding and are not
counted among its characters. -/
def indentPosition? (from' padding width : Nat) (line : Text) : Option (Nat × Nat) :=
  if width = 0 then some (0, padding) else go 0 0 padding line
where
  go (w count : Nat) : Nat → Text → Option (Nat × Nat)
  | p + 1, _ :: t => go (w + 1) (count + 1) p t
  | 0, '\t' :: t => if w < width then go (w + tabWidth (from' + w)) (count + 1) 0 t else done w count
  | 0, ' ' :: t => if w < width then go (w + 1) (count + 1) 0 t else done w count
  | _, _ => done w count
  done (w count : Nat) : Option (Nat × Nat) :=
    if w ≥ width then some (count - padding, w - width) else none

end Docweave.Markdown
