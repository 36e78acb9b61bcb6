import Docweave.Yaml.Fault

/-!
# Reading a YAML text

A cursor is the rest of a text with the place it starts at. Steps forward keep count of characters, lines
and columns.
-/

namespace Docweave.Yaml

/-- A place in a text: the number of characters, lines and columns in front of it. -/
structure Mark where
  index : Nat := 0
  line : Nat := 0
  column : Nat := 0
deriving DecidableEq, Inhabited

/-- The rest of a text and where it starts. -/
structure Cursor where
  rest : Text
  mark : Mark := {}
  /-- Nothing but blanks has been read since the last line break. -/
  fresh : Bool := false
deriving Inhabited

/-! ## Characters -/

/-- Spaces and tabs. -/
def isBlank (c : Char) : Bool := c = ' ' || c = '\t'

/-- Characters that end a line. -/
def isBreak (c : Char) : Bool :=
  c = '\n' || c = '\r' || c.toNat = 0x85 || c.toNat = 0x2028 || c.toNat = 0x2029

/-- Blanks and breaks. -/
def isGap (c : Char) : Bool := isBlank c || isBreak c

/-- Characters of anchors, handles and directive names. -/
def isNameChar (c : Char) : Bool := Text.isAlphanumeric c || c = '_' || c = '-'

/-- A blank, a break or the end follows. -/
def atGap (t : Text) : Bool := (t.head?.map isGap).getD true

/-- A break or the end follows. -/
def atBreak (t : Text) : Bool := (t.head?.map isBreak).getD true

/-- The text starts with a marker of three characters that stands alone. -/
def startsMarker (mark : Char) (t : Text) : Bool :=
  match t with
  | a :: b :: c :: r => a = mark && b = mark && c = mark && atGap r
  | _ => false

/-- The characters of a text that YAML allows. -/
def isAllowed (c : Char) : Bool :=
  let n := c.toNat
  n = 9 || n = 10 || n = 13 || (0x20 ≤ n && n ≤ 0x7E) || n = 0x85 ||
    (0xA0 ≤ n && n ≤ 0xFFFD && n ≠ 0xFEFF) || 0x10000 ≤ n

namespace Cursor

/-- The cursor at the start of a text. A byte order mark in front is not part of it. -/
def start (t : Text) : Cursor :=
  match t with
  | c :: r => if c.toNat = 0xFEFF then ⟨r, {}, false⟩ else ⟨t, {}, false⟩
  | [] => ⟨[], {}, false⟩

/-- The next character. -/
def head? (c : Cursor) : Option Char := c.rest.head?

/-- The next character is `x`. -/
def sees (c : Cursor) (x : Char) : Bool := c.rest.head? = some x

/-- `n` characters on, none of which ends a line. -/
def skip (c : Cursor) (n : Nat) : Cursor :=
  let taken := c.rest.take n
  let mark := { c.mark with index := c.mark.index + taken.length, column := c.mark.column + taken.length }
  ⟨c.rest.drop n, mark, c.fresh && taken.all isBlank⟩

/-- Behind the characters of a class, none of which ends a line. -/
def skipWhile (p : Char → Bool) (c : Cursor) : Cursor := c.skip (c.rest.takeWhile p).length

/-- The characters of a class in front, none of which ends a line, and the cursor behind them. -/
def takeWhile (p : Char → Bool) (c : Cursor) : Text × Cursor := (c.rest.takeWhile p, c.skipWhile p)

/-- Behind a line break, and the text it stands for: a newline, except for the two separators of Unicode. -/
def takeBreak (c : Cursor) : Text × Cursor :=
  let next := fun (n : Nat) (r : Text) =>
    (⟨r, ⟨c.mark.index + n, c.mark.line + 1, 0⟩, true⟩ : Cursor)
  match c.rest with
  | '\r' :: '\n' :: r => (['\n'], next 2 r)
  | x :: r =>
    if isBreak x then (if x.toNat = 0x2028 || x.toNat = 0x2029 then [x] else ['\n'], next 1 r) else ([], c)
  | [] => ([], c)

/-- Behind a line break. -/
def skipBreak (c : Cursor) : Cursor := c.takeBreak.2

/-- Behind the rest of the line. -/
def skipLineRest (c : Cursor) : Cursor := c.skipWhile (!isBreak ·)

/-- The cursor is on a line with a document marker. -/
def atDocumentMarker (c : Cursor) : Bool :=
  c.mark.column = 0 && (startsMarker '-' c.rest || startsMarker '.' c.rest)

/-- The line that a problem is reported at: the first known one of where its construct starts and where it
is, and none on the first line. -/
def reportLine (context place : Mark) (shift : Nat) : Nat :=
  if context.line ≠ 0 then context.line + shift
  else if place.line ≠ 0 then place.line + shift
  else 0

/-- A problem with the characters at the cursor, in a construct that starts at `context`. -/
def fault (c : Cursor) (context : Mark) (p : Problem) : Fault := .malformed (reportLine context c.mark 1) p

end Cursor

end Docweave.Yaml
