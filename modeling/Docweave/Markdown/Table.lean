import Docweave.Markdown.Draft

/-!
# Tables

A paragraph line that draws a row of dashes under another line makes a table of the two and of every
line below. The number of cells of the row above must be that of the dashes.
-/

namespace Docweave.Markdown

open Docweave.Text

/-- A line of dashes, colons, pipes and blanks; dashes alone do not count. -/
def isDelimiterLine (line : Text) : Bool :=
  (indentation 0 line).1 ≤ 3 && line.any (· ≠ '-') &&
    line.all fun c => isBlankAscii c || c = '-' || c = '|' || c = ':'

/-- One cell of the delimiter line: dashes with an optional colon on either side. -/
def isDelimiterCell (cell : Text) : Bool :=
  let t := trimBoth isPatternSpace cell
  let t := match t with
    | ':' :: r => r
    | _ => t
  let dashes := t.takeWhile (· = '-')
  let tail := t.dropWhile (· = '-')
  !dashes.isEmpty && (tail = [] || tail = [':'])

/-- The number of columns that a delimiter line announces. -/
def delimiterColumns? (line : Text) : Option Nat :=
  if isDelimiterLine line then
    let cells := splitOn '|' line
    let cells := match cells with
      | c :: cs => if isBlank c then cs else cells
      | [] => []
    let cells := match cells.getLast? with
      | some c => if isBlank c then cells.dropLast else cells
      | none => []
    if !cells.isEmpty && cells.all isDelimiterCell then some cells.length else none
  else none

/-- Length of a cell: up to the next pipe that no backslash escapes. With it the positions of the
backslashes that escape a pipe behind a back quote. -/
def cellLength (prev : Option Char) (sawBacktick : Bool) (pos : Nat) : Text → Nat × List Nat
  | [] => (pos, [])
  | c :: t =>
    if c = '|' then
      if prev = some '\\' then
        let (n, es) := cellLength (some c) sawBacktick (pos + 1) t
        (n, if sawBacktick then (pos - 1) :: es else es)
      else (pos, [])
    else cellLength (some c) (sawBacktick || c = backtick) (pos + 1) t

/-- An empty cell that fills up a short row. -/
def emptyCell : Draft := .mk (.tableCell []) false [] []

/-- The cells of a row. Only a header may have more cells than there are columns. -/
def rowCells (columns : Nat) (isHeader : Bool) (line : Segment) : List Draft :=
  let line := line.trim
  let openPipe := line.text.head? = some '|'
  let limit := if line.text.getLast? = some '|' then line.text.length - 1 else line.text.length
  let line := line.take limit
  let cells := go (line.text.length + 1) 0 (if openPipe then some '|' else none)
    (if openPipe then line.drop 1 else line)
  cells ++ List.replicate (columns - cells.length) emptyCell
where
  go (fuel index : Nat) (prev : Option Char) (rest : Segment) : List Draft :=
    match fuel with
    | 0 => []
    | fuel + 1 =>
      if rest.text.isEmpty || (index ≥ columns && !isHeader) then []
      else
        let (n, escapes) := cellLength prev false 0 rest.text
        let cell := .mk (.tableCell (escapes.map (rest.start + ·))) false [(rest.take n).trim] []
        cell :: go fuel (index + 1) (some '|') (rest.drop (n + 1))

/-- The table that begins at the first delimiter line below another line: what is left of the paragraph
above it, and the table. -/
def splitTable? (lines : List Segment) : Option (List Segment × Draft) :=
  match lines with
  | [] => none
  | first :: rest => go [] first rest
where
  go (above : List Segment) (header : Segment) : List Segment → Option (List Segment × Draft)
  | [] => none
  | line :: below =>
    match delimiterColumns? line.value with
    | none => go (above ++ [header]) line below
    | some columns =>
      let cells := rowCells columns true header
      if cells.length = columns then
        let rows := below.map fun l => Draft.mk .tableRow false [] (rowCells columns false l)
        some (above, .mk .table false [] (.mk .tableHeader false [] cells :: rows))
      else none

/-- A paragraph and the table that was cut from its end. The last line left loses its newline. -/
def takeTable (lines : List Segment) : List Segment × List Draft :=
  match splitTable? lines with
  | none => (lines, [])
  | some (above, table) =>
    (above.dropLast ++ above.getLast?.toList.map fun s => s.take (s.text.length - 1), [table])

end Docweave.Markdown
