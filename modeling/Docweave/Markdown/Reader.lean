import Docweave.Markdown.Segment

/-!
# Reading the text of a block

The lines of a block are read as one text. The reader stands in one of the lines, and passes to the
next one when it takes the last character of its line.
-/

namespace Docweave.Markdown

/-- A position in the lines of a block. -/
structure Reader where
  /-- Index of the current line among the lines of the block. -/
  index : Nat
  /-- The rest of the current line; empty at the end of the block. -/
  line : Segment
  /-- The lines below. -/
  later : List Segment

namespace Reader

/-- The reader in front of the first line, which counts as the start of a line wherever it was cut. -/
def ofLines : List Segment → Reader
  | [] => ⟨0, ⟨0, 0, '\n', [], 0, false⟩, []⟩
  | s :: ss => ⟨0, { s with before := '\n' }, ss⟩

/-- Nothing is left to read. -/
def atEnd (r : Reader) : Bool := r.line.text.isEmpty

/-- The rest of the current line. -/
def text (r : Reader) : Text := r.line.text

/-- The next character. -/
def peek (r : Reader) : Option Char := r.line.text.head?

/-- The start of the line below, or the end of the block. -/
def nextLine (r : Reader) : Reader :=
  match r.later with
  | [] => ⟨r.index + 1, { r.line with start := r.line.stop, text := [] }, []⟩
  | s :: ss => ⟨r.index + 1, s, ss⟩

/-- `n` characters on. -/
def advance : Nat → Reader → Reader
  | 0, r => r
  | n + 1, r =>
    match r.line.text, r.later with
    | [], _ => r
    | [_], _ :: _ => advance n r.nextLine
    | _, _ => advance n { r with line := r.line.drop 1 }

/-- Characters left in the block. -/
def remaining (r : Reader) : Nat := r.line.text.length + r.later.foldr (fun s n => s.text.length + n) 0

/-- The rest of the block as one text. -/
def wholeText (r : Reader) : Text := r.line.text ++ (r.later.map (·.text)).flatten

/-- The first position that is not a blank, and the number of blanks in front of it. -/
def skipSpaces (r : Reader) : Nat × Reader :=
  let n := (r.wholeText.takeWhile Text.isBlankAscii).length
  (n, r.advance n)

/-- The length of the text up to `closer`, when no `opener` comes first. An escaped punctuation
character is neither. -/
def closureLength? (opener closer : Char) : Text → Option Nat
  | [] => none
  | '\\' :: c :: t =>
    if Text.isPunctuation c then (closureLength? opener closer t).map (· + 2)
    else (closureLength? opener closer (c :: t)).map (· + 1)
  | c :: t =>
    if c = closer then some 0
    else if c = opener then none
    else (closureLength? opener closer t).map (· + 1)

/-- The text up to `closer` and the position behind it. -/
def findClosure? (opener closer : Char) (r : Reader) : Option (Text × Reader) :=
  (closureLength? opener closer r.wholeText).map fun n => (r.wholeText.take n, r.advance (n + 1))

/-- Where the search for `closer` gave up: at the line of an `opener`, or at the end of the block. -/
def closureFailure (opener : Char) (r : Reader) : Reader :=
  go (r.later.length + 1) r
where
  /-- The line holds an opener that is not escaped. -/
  holdsOpener : Text → Bool
  | [] => false
  | '\\' :: c :: t => if Text.isPunctuation c then holdsOpener t else holdsOpener (c :: t)
  | c :: t => c = opener || holdsOpener t
  go : Nat → Reader → Reader
  | 0, r => r
  | n + 1, r => if r.atEnd || holdsOpener r.text then r else go n r.nextLine

end Reader

/-- The text of a block between two offsets of the source. -/
def textBetween (lines : List Segment) (start stop : Nat) : Text :=
  lines.flatMap fun s => (s.text.take (stop - s.start)).drop (start - s.start)

end Docweave.Markdown
