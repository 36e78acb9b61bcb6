import Docweave.Markdown.Reader
import Docweave.Text.CaseFold

/-!
# Link definitions

A paragraph may begin with lines `[label]: destination "title"`. They define references for the whole
document and leave the paragraph. Labels are compared after trimming, case folding and joining blanks.
-/

namespace Docweave.Markdown

open Docweave.Text

/-- A defined link target. -/
structure Reference where
  /-- The label in the form in which labels are compared. -/
  key : Text
  destination : Text
  title : Text
deriving Inhabited

/-- Runs of blanks as single spaces. -/
def joinBlanks : Text → Text
  | [] => []
  | c :: t =>
    if isBlankAscii c then
      match t with
      | [] => [c]
      | d :: _ => if isBlankAscii d then joinBlanks t else ' ' :: joinBlanks t
    else c :: joinBlanks t

/-- The form in which labels are compared. -/
def labelKey (label : Text) : Text := joinBlanks (fold (trimBoth isBlankAscii label))

/-- The first definition of a label counts. -/
def lookupReference (refs : List Reference) (label : Text) : Option Reference :=
  refs.find? (·.key = labelKey label)

/-- Adds a definition unless its label is defined. -/
def addReference (refs : List Reference) (label destination title : Text) : List Reference :=
  if refs.any (·.key = labelKey label) then refs else refs ++ [⟨labelKey label, destination, title⟩]

/-- Length of a destination between angle brackets, the brackets aside. -/
def bracketedLength? : Text → Option Nat
  | [] => none
  | '\\' :: c :: t =>
    if isPunctuation c then (bracketedLength? t).map (· + 2) else (bracketedLength? (c :: t)).map (· + 1)
  | c :: t => if c = '>' then some 0 else (bracketedLength? t).map (· + 1)

/-- Length of a bare destination: up to a blank or a closing parenthesis without partner. -/
def bareLength (depth : Nat) : Text → Nat
  | [] => 0
  | '\\' :: c :: t => if isPunctuation c then bareLength depth t + 2 else bareLength depth (c :: t) + 1
  | c :: t =>
    if c = '(' then bareLength (depth + 1) t + 1
    else if c = ')' then (if depth = 0 then 0 else bareLength (depth - 1) t + 1)
    else if isBlankAscii c then 0
    else bareLength depth t + 1

/-- A link destination behind optional blanks. -/
def destination? (r : Reader) : Option (Text × Reader) :=
  let r := r.skipSpaces.2
  match r.text with
  | '<' :: t => (bracketedLength? t).map fun n => (t.take n, r.advance (n + 2))
  | t =>
    let n := bareLength 0 t
    if n = 0 then none else some (t.take n, r.advance n)

/-- The character that ends a title, by the one that starts it. -/
def titleCloser? (c : Char) : Option Char :=
  if c = quote || c = apostrophe then some c
  else if c = '(' then some ')'
  else none

/-- A link title behind optional blanks. -/
def title? (r : Reader) : Option (Text × Reader) := do
  let r := r.skipSpaces.2
  let opener ← r.peek
  let closer ← titleCloser? opener
  (r.advance 1).findClosure? opener closer

/-- A definition at the reader: the lines it takes as a half-open range, the label, destination and
title, and the position behind it. -/
def definition? (r : Reader) : Option ((Nat × Nat) × (Text × Text × Text) × Reader) := do
  let r := r.skipSpaces.2
  let first := r.index
  guard (r.peek = some '[')
  let (label, r) ← (r.advance 1).findClosure? '[' ']'
  guard (!isBlank label)
  guard (r.peek = some ':')
  let (dest, r) ← destination? (r.advance 1).skipSpaces.2
  let lineEnds := r.atEnd || isBlank r.text
  let last := r.index
  let (blanks, r) := r.skipSpaces
  match r.peek.bind fun c => (titleCloser? c).map fun d => (c, d) with
  | none =>
    if lineEnds then some ((first, last + 1), (label, dest, []), r) else none
  | some (opener, closer) =>
    guard (blanks ≠ 0)
    let r := r.advance 1
    match r.findClosure? opener closer with
    | none =>
      if lineEnds then some ((first, last + 1), (label, dest, []), (r.closureFailure opener).nextLine)
      else none
    | some (title, r) =>
      if !r.atEnd && !isBlank r.text then
        if lineEnds then some ((first, last), (label, dest, title), r) else none
      else some ((first, r.index + 1), (label, dest, title), r)

/-- All definitions from the reader on: the ranges of their lines and the references with them added.
Each one takes characters, so as many steps as there are characters suffice. -/
def definitions (fuel : Nat) (r : Reader) (refs : List Reference) :
    List (Nat × Nat) × List Reference :=
  match fuel with
  | 0 => ([], refs)
  | fuel + 1 =>
    match definition? r with
    | none => ([], refs)
    | some ((first, last), (label, dest, title), r) =>
      let (ranges, refs) := definitions fuel r (addReference refs label dest title)
      ((first, if first = last then last + 1 else last) :: ranges, refs)

/-- Takes line ranges out of a list; each range counts from the end of the one before it. -/
def removeRanges {α : Type} (offset : Nat) : List (Nat × Nat) → List α → List α
  | [], l => l
  | (first, last) :: rs, l =>
    if l.isEmpty then l
    else removeRanges last rs (l.take (first - offset) ++ l.drop (last - offset))

/-- A paragraph without the definitions at its start, and the references with these added. -/
def takeDefinitions (lines : List Segment) (refs : List Reference) : List Segment × List Reference :=
  let reader := Reader.ofLines lines
  let (ranges, refs) := definitions reader.remaining reader refs
  (removeRanges 0 ranges lines, refs)

end Docweave.Markdown
