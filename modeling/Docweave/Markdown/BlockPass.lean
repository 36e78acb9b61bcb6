import Docweave.Markdown.HtmlTag
import Docweave.Markdown.LinkReference
import Docweave.Markdown.ListMarker
import Docweave.Markdown.Table

/-!
# The block pass

Finds the block structure of a document. The pass goes through the lines with a chain of open blocks,
outermost first. On each line the blocks of the chain are asked in turn whether the line belongs to
them; at the first that refuses, new blocks may open, and unless the line merely continues a paragraph
the refusing block and all below it are closed.

`draftBlocks` is the pass as a whole: the finished top-level blocks and the link references they define.
-/

namespace Docweave.Markdown

open Docweave.Text

/-- A line that an open block has looked at, with the depth of that block. -/
structure LineSighting where
  row : Nat
  level : Nat
  blank : Bool

/-- The state between two lines, and within one. -/
structure BlockState where
  cursor : Cursor
  /-- Finished top-level blocks in order. -/
  done : List Draft
  /-- Open blocks, outermost first; each is inside the one before it. -/
  chain : List OpenBlock
  /-- Link references defined so far. -/
  refs : List Reference
  /-- What the open blocks have seen, newest first. -/
  sightings : List LineSighting
  /-- The next list marker belongs to an open list. -/
  skipList : Bool
  /-- The last item opened is empty and blank lines follow it. -/
  emptyItem : Bool

/-- The ways a block can begin, in the order in which they are tried. -/
inductive BlockStart
  | underline | rule | list | item | atx | fence | quote | html | code | paragraph
deriving DecidableEq

namespace BlockStart

/-- The starts to try for a line by its first character that is not a space or tab. -/
def candidates (c : Option Char) : List BlockStart :=
  (match c with
    | some c =>
      if c = '=' then [underline]
      else if c = '-' then [underline, rule, list, item]
      else if c = '*' then [rule, list, item]
      else if c = '_' then [rule]
      else if c = '+' || isDigit c then [list, item]
      else if c = '#' then [atx]
      else if c = '~' || c = backtick then [fence]
      else if c = '>' then [quote]
      else if c = '<' then [html]
      else []
    | none => []) ++ [code, paragraph]

/-- The start may end a paragraph that it does not belong to. -/
def interruptsParagraph : BlockStart → Bool
  | code => false
  | paragraph => false
  | _ => true

/-- The start may be indented by four columns or more. -/
def acceptsIndent : BlockStart → Bool
  | code => true
  | _ => false

end BlockStart

/-- The line in front of `row` was blank, as far as blocks at most `level` deep have seen it. -/
def blankAbove (row level : Nat) (sightings : List LineSighting) : Bool :=
  if sightings.isEmpty then true else go (sightings.drop level)
where
  go : List LineSighting → Bool
  | [] => false
  | s :: ss =>
    if s.row + 1 = row && s.level ≤ level then s.blank
    else if s.row + 1 < row then false
    else go ss

/-! ## Closing -/

/-- Trims the lines of a paragraph in front and its last line at the end. -/
def trimParagraph (lines : List Segment) : List Segment :=
  let lines := lines.map Segment.trimLeft
  lines.dropLast ++ lines.getLast?.toList.map Segment.trimRight

/-- No item of the list is set off by a blank line, inside or in front. -/
def isTight (items : List Draft) : Bool :=
  items.all (fun i => i.children.tail.all fun c => !c.blankBefore) &&
    items.tail.all fun i => !i.blankBefore

/-- The items of a tight list hold text without paragraphs. -/
def tightenItem (item : Draft) : Draft :=
  .mk item.shape item.blankBefore item.lines (item.children.map fun c =>
    match c.shape with
    | .paragraph => .mk .textBlock false c.lines c.children
    | _ => c)

/-- Takes link definitions and a table out of paragraph lines: the lines left, what stands in their
place or behind them, and the references. -/
def transformParagraph (blank : Bool) (lines : List Segment) (refs : List Reference) :
    List Segment × List Draft × List Reference :=
  let (lines, refs) := takeDefinitions lines refs
  if lines.isEmpty then ([], [.mk .textBlock blank [] []], refs)
  else
    let (lines, tables) := takeTable lines
    (lines, tables, refs)

/-- The finished blocks that an open block leaves behind. -/
def closeBlock (b : OpenBlock) (refs : List Reference) : List Draft × List Reference :=
  match b.shape with
  | .paragraph =>
    let (lines, after, refs) := transformParagraph b.blankBefore b.lines refs
    if lines.isEmpty then (after, refs)
    else (.mk .paragraph b.blankBefore (trimParagraph lines) [] :: after, refs)
  | .code =>
    let lines := (b.lines.reverse.dropWhile fun s => isBlank s.value).reverse
    ([.mk .code b.blankBefore lines []], refs)
  | .list _ _ =>
    let items := if isTight b.children then b.children.map tightenItem else b.children
    ([.mk b.shape b.blankBefore b.lines items], refs)
  | _ => ([b.toDraft], refs)

/-- Closes a chain of blocks from the innermost on. -/
def closeChain : List OpenBlock → List Reference → List Draft × List Reference
  | [], refs => ([], refs)
  | b :: bs, refs =>
    let (inner, refs) := closeChain bs refs
    closeBlock { b with children := b.children ++ inner } refs

namespace BlockState

/-- Adds finished blocks inside the `depth`-th open block, at top level for depth zero. -/
def addDrafts (st : BlockState) (depth : Nat) (ds : List Draft) : BlockState :=
  match depth with
  | 0 => { st with done := st.done ++ ds }
  | d + 1 =>
    { st with chain := st.chain.modify d fun b => { b with children := b.children ++ ds } }

/-- Closes the `count` open blocks below depth `depth` and keeps those behind them. -/
def closeBlocks (st : BlockState) (depth count : Nat) : BlockState :=
  let (ds, refs) := closeChain ((st.chain.drop depth).take count) st.refs
  let st := { st with chain := st.chain.take depth ++ st.chain.drop (depth + count), refs := refs }
  st.addDrafts depth ds

/-- The innermost open block. -/
def last? (st : BlockState) : Option OpenBlock := st.chain.getLast?

/-- The paragraph that is the innermost block and directly inside the `depth`-th. -/
def paragraphAt? (st : BlockState) (depth : Nat) : Option OpenBlock :=
  match st.chain[depth]? with
  | some b => if b.isParagraph && st.chain.length = depth + 1 then some b else none
  | none => none

end BlockState

/-! ## Opening -/

/-- A code line keeps a tab that the code indentation only reached into. -/
def keepTab (cursor : Cursor) (indent : Nat) (s : Segment) : Segment :=
  if s.padding ≠ 0 && cursor.column + indent = columnsFrom 0 (cursor.line.take (cursor.used - 1)) then
    { s with start := s.start - 1, text := s.before :: s.text, padding := 0 }
  else s

/-- The line as a line of indented code. -/
def codeLine? (cursor : Cursor) : Option Segment :=
  (indentPosition? cursor.column 0 4 cursor.text).map fun (pos, padding) =>
    let c := cursor.advancePadded pos padding
    { keepTab c 0 c.segment with closesLine := true }

/-- The heading that `#` marks at position `pos` of the line make. -/
def atxHeading? (cursor : Cursor) (pos : Nat) : Option (Nat × List Segment) :=
  let line := cursor.text
  let level := ((line.drop pos).takeWhile (· = '#')).length
  let i := pos + level
  if level = 0 || level > 6 then none
  else
    let behind := line.drop i
    if behind.isEmpty then some (level, [])
    else
      let blanks := (behind.takeWhile isBlankAscii).length
      if blanks = 0 then none
      else
        let start := min (i + blanks) (line.length - 1)
        let body := trimRight isBlankAscii (line.drop start)
        let hashes := (body.reverse.takeWhile (· = '#')).length
        let front := body.take (body.length - hashes)
        let content :=
          if hashes = 0 then body
          else if front.isEmpty then []
          else if (front.getLast?.map isBlankAscii).getD false then front
          else body
        if content.isEmpty then some (level, [])
        else
          let s := cursor.segment.drop (start - cursor.padding)
          some (level, [{ s.take content.length with padding := 0 }])

/-- The shape of fenced code that starts at position `pos` of the line. -/
def fenceShape? (cursor : Cursor) (pos : Nat) : Option Shape :=
  let line := cursor.text
  match line.drop pos with
  | [] => none
  | mark :: _ =>
    let length := ((line.drop pos).takeWhile (· = mark)).length
    if !(mark = '~' || mark = backtick) || length < 3 then none
    else
      let behind := line.drop (pos + length)
      let info := if behind.length > 1 then trimBoth isBlankAscii behind else []
      if mark = backtick && info.contains backtick then none
      else some (.fenced mark pos length info)

/-- The kind of markup block that starts on the line. -/
def htmlKind? (line : Text) (interrupts : Bool) : Option HtmlKind :=
  let t := (HtmlTag.afterIndent? line).getD []
  if HtmlTag.startsVerbatim line then some .verbatim
  else if startsWith t "<!--" then some .comment
  else if startsWith t "<?" then some .instruction
  else if startsDeclaration t then some .declaration
  else if startsWith t "<![CDATA[" then some .cdata
  else
    match HtmlTag.loneTag? line with
    | some (name, closing, hasAttributes) =>
      if HtmlTag.blockNames.contains name then some .blockTag
      else if !(["script", "style", "pre"].map String.toList).contains name && !interrupts &&
          !(closing && hasAttributes) then some .anyTag
      else known line
    | none => known line
where
  startsDeclaration (t : Text) : Bool :=
    match dropPrefix? "<!" t with
    | some (c :: _) => 'A' ≤ c && c ≤ 'Z'
    | _ => false
  known (line : Text) : Option HtmlKind :=
    match HtmlTag.leadingTag? line with
    | some name => if HtmlTag.blockNames.contains name then some .blockTag else none
    | none => none

/-- The line behind a quote mark. -/
def quoteLine? (cursor : Cursor) : Option Cursor :=
  let line := cursor.text
  let (w, pos) := indentation cursor.column line
  if w > 3 then none
  else
    match line.drop pos with
    | '>' :: t =>
      let c := cursor.advance (pos + 1)
      match t with
      | ' ' :: _ => some (c.advancePadded 1 0)
      | '\t' :: _ => some (c.advancePadded 1 (tabWidth c.column - 1))
      | _ => some c
    | _ => none

/-- The content column and emptiness of the last item of a list that is open at `depth`. -/
def lastItem (st : BlockState) (depth : Nat) : Nat × Bool :=
  match st.chain[depth + 1]? with
  | some b =>
    match b.shape with
    | .item offset => (offset, b.children.isEmpty && st.chain.length = depth + 2)
    | _ => (0, true)
  | none =>
    match (st.chain[depth]?.bind (·.children.getLast?)) with
    | some d =>
      match d.shape with
      | .item offset => (offset, d.children.isEmpty)
      | _ => (0, true)
    | none => (0, true)

/-- The column of the last item of the list with `depth` blocks down to it, zero without one. -/
def lastOffset (st : BlockState) (depth : Nat) : Nat :=
  match depth with
  | 0 => 0
  | d + 1 => (lastItem st d).1

/-- A block that a line begins: its shape and lines, whether blocks may follow inside it on the same
line, and the cursor behind its marker. -/
structure Opening where
  shape : Shape
  lines : List Segment := []
  container : Bool := false
  cursor : Cursor

/-- Tries one kind of start inside the `depth`-th open block. `position` is where the marker stands. -/
def BlockStart.open? (start : BlockStart) (st : BlockState) (depth : Nat) (position : Option Nat) :
    Option Opening × BlockState :=
  let cursor := st.cursor
  let line := cursor.text
  match start with
  | underline =>
    match st.paragraphAt? depth, underlineLevel? line with
    | some _, some level => (some { shape := .heading level, cursor := cursor }, st)
    | _, _ => (none, st)
  | rule =>
    if isRule cursor.column line then (some { shape := .thematicBreak, cursor := cursor }, st) else (none, st)
  | list =>
    if st.skipList || (st.last?.map (·.isList)).getD false then (none, { st with skipList := false })
    else
      match ListMarker.ofLine? line with
      | none => (none, st)
      | some m =>
        let refused := (st.paragraphAt? depth).isSome && (m.isBare || (m.number.isSome && m.number ≠ some 1))
        if refused then (none, st)
        else
          (some { shape := .list m.mark (m.number.getD 0), container := true, cursor := cursor },
            { st with emptyItem := false })
  | item =>
    let parentIsList := match depth with
      | 0 => false
      | d + 1 => (st.chain[d]?.map (·.isList)).getD false
    if !parentIsList then (none, st)
    else
      match ListMarker.ofLine? line with
      | none => (none, st)
      | some m =>
        if m.indent > lastOffset st depth + 3 then (none, st)
        else
          let st := { st with emptyItem := false }
          let shape := Shape.item (m.width + m.contentGap)
          if m.isBare then (some { shape := shape, cursor := cursor }, st)
          else
            let (pos, padding) := (indentPosition? m.width 0 m.contentGap m.tail).getD (0, 0)
            (some
              { shape := shape, container := true, cursor := cursor.advancePadded (m.width + pos) padding },
              st)
  | atx =>
    match position.bind (atxHeading? cursor) with
    | some (level, lines) => (some { shape := .heading level, lines := lines, cursor := cursor }, st)
    | none => (none, st)
  | fence =>
    match position.bind (fenceShape? cursor) with
    | some shape => (some { shape := shape, cursor := cursor }, st)
    | none => (none, st)
  | quote =>
    match quoteLine? cursor with
    | some c => (some { shape := .quote, container := true, cursor := c }, st)
    | none => (none, st)
  | html =>
    match position with
    | none => (none, st)
    | some _ =>
      match htmlKind? line ((st.last?.map (·.isParagraph)).getD false) with
      | some kind => (some { shape := .html kind none, lines := [cursor.segment], cursor := cursor }, st)
      | none => (none, st)
  | code =>
    if isBlank line then (none, st)
    else
      match codeLine? cursor with
      | some s => (some { shape := .code, lines := [s], cursor := cursor }, st)
      | none => (none, st)
  | paragraph =>
    let s := cursor.segment.trimLeft
    if s.text.isEmpty then (none, st) else (some { shape := .paragraph, lines := [s], cursor := cursor }, st)

/-- What a line did to the blocks: it continued the innermost paragraph, opened blocks, or neither. -/
inductive OpenResult
  | continued | opened | nothing
deriving DecidableEq

/-- What became of one round of tries. -/
inductive Attempt
  /-- No start fits. -/
  | failed (st : BlockState)
  /-- A block was opened that takes the whole line. -/
  | finished (st : BlockState)
  /-- A container was opened; the search goes on inside it, at a new depth. -/
  | inside (st : BlockState) (depth : Nat)
  /-- The paragraph above became the heading that the line underlines. -/
  | underlined (st : BlockState)
  /-- The paragraph above turned out to be something else and left the chain. -/
  | again (st : BlockState)

/-- Tries the starts in order. -/
def tryStarts (depth : Nat) (blank fresh continuable : Bool) (width : Nat) (position : Option Nat) :
    List BlockStart → BlockState → Attempt
  | [], st => .failed st
  | s :: ss, st =>
    if continuable && fresh && !s.interruptsParagraph then
      tryStarts depth blank fresh continuable width position ss st
    else if width > 3 && !s.acceptsIndent then
      tryStarts depth blank fresh continuable width position ss st
    else
      match s.open? st depth position with
      | (none, st) => tryStarts depth blank fresh continuable width position ss st
      | (some o, st) =>
        match s, st.paragraphAt? depth with
        | .underline, some p =>
          let (lines, after, refs) := transformParagraph p.blankBefore (trimParagraph p.lines) st.refs
          let st := { st with chain := st.chain.take depth, refs := refs }
          let st := st.addDrafts depth after
          if lines.isEmpty then .again st
          else .underlined { st with chain := st.chain ++ [⟨o.shape, p.blankBefore, lines, []⟩] }
        | _, _ =>
          let st := { st with cursor := o.cursor, chain := st.chain ++ [⟨o.shape, blank, o.lines, []⟩] }
          if o.container then .inside st st.chain.length else .finished st

/-- Opens the blocks that the rest of the line begins inside the `depth`-th open block, and tells
whether the paragraph that was innermost has left the chain. Every round but the last opens a block, and
two of them in a row take a character, so `fuel` may be twice the length of the line. -/
def openBlocks (fuel depth : Nat) (blank fresh continuable taken : Bool) (st : BlockState) :
    OpenResult × Bool × BlockState :=
  match fuel with
  | 0 => (.nothing, taken, st)
  | fuel + 1 =>
    let line := st.cursor.text
    let (width, count) := indentation st.cursor.column line
    let position := if width ≥ byteSize line then none else some count
    let attempt :=
      if line.isEmpty || line.head? = some '\n' then .failed st
      else tryStarts depth blank fresh continuable width position (BlockStart.candidates (line)[count]?) st
    match attempt with
    | .inside st depth => openBlocks fuel depth blank false continuable taken st
    | .again st => openBlocks fuel depth blank fresh false true st
    | .underlined st => (.opened, true, st)
    | .finished st => (.opened, taken, st)
    | .failed st =>
      if !fresh then (.opened, taken, st)
      else if continuable && !isBlank line then
        let s := st.cursor.segment.trimLeft
        let last := st.chain.length - 1
        (.continued, taken,
          { st with chain := st.chain.modify last fun b => { b with lines := b.lines ++ [s] } })
      else (.nothing, taken, st)

/-- Opens blocks on a line of which no block has been opened yet. -/
def BlockState.openOnLine (st : BlockState) (depth : Nat) (blank : Bool) :
    OpenResult × Bool × BlockState :=
  openBlocks (2 * st.cursor.text.length + 4) depth blank true
    ((st.last?.map (·.isParagraph)).getD false) false st

/-! ## Continuing -/

/-- Whether an open block goes on with the line: not at all, as a leaf, or as a container. -/
inductive Continuation
  | closes | leaf | container
deriving DecidableEq

/-- A blank line of indented code without the first four columns of its blanks. -/
def blankCodeLine (s : Segment) : Segment :=
  if s.padding ≥ 4 then { s with padding := s.padding - 4 }
  else go (4 - s.padding) (s.text.length - 1) { s with padding := 0 }
where
  go (width : Nat) : Nat → Segment → Segment
  | 0, s => s
  | n + 1, s =>
    if width = 0 then s
    else match s.text with
      | ' ' :: _ => go (width - 1) n (s.drop 1)
      | '\t' :: _ =>
        if width ≥ 4 then go (width - 4) n (s.drop 1) else { s.drop 1 with padding := 4 - width }
      | _ => s

/-- The line as a line of fenced code, with the indentation of the fence taken off. -/
def fencedLine (cursor : Cursor) (indent : Nat) : Segment :=
  let line := cursor.text
  let s := cursor.segment
  let (pos, padding) :=
    match indentPosition? cursor.column s.padding indent line with
    | some p => p
    | none =>
      let blanks := (line.takeWhile fun c => c = ' ' || c = '\t').length
      match (line)[blanks]? with
      | some '\n' => (0, 0)
      | none => (0, 0)
      | some _ => (blanks, 0)
  let seg := { s.drop pos with padding := padding }
  let seg := if padding ≠ 0 then keepTabAt cursor indent seg else seg
  { seg with closesLine := true }
where
  keepTabAt (cursor : Cursor) (indent : Nat) (s : Segment) : Segment :=
    if cursor.column + indent = columnsFrom 0 (cursor.line.take (cursor.used - 1)) then
      { s with start := s.start - 1, text := s.before :: s.text, padding := 0 }
    else s

/-- The text that ends a block of markup. -/
def HtmlKind.closer : HtmlKind → Text
  | comment => "-->"
  | instruction => "?>"
  | declaration => ">"
  | cdata => "]]>"
  | _ => []

/-- Asks the open block at `depth` about the line. -/
def continueBlock (st : BlockState) (depth : Nat) (b : OpenBlock) : Continuation × BlockState :=
  let cursor := st.cursor
  let line := cursor.text
  let addLine := fun (s : Segment) =>
    { st with chain := st.chain.modify depth fun b => { b with lines := b.lines ++ [s] } }
  match b.shape with
  | .quote =>
    match quoteLine? cursor with
    | some c => (.container, { st with cursor := c })
    | none => (.closes, st)
  | .list mark _ =>
    let (offset, lastEmpty) := lastItem st depth
    if isBlank line then (.container, if lastEmpty then { st with emptyItem := true } else st)
    else
      let indent := (indentation cursor.column line).1
      let marker := if (indent < offset || lastEmpty) && indent < 4 then ListMarker.ofLine? line else none
      match marker.filter fun m => m.indent < offset + 4 with
      | some m =>
        if m.mark ≠ mark then (.closes, st)
        else
          let bar := line.drop (m.width - 1)
          let underlines := (st.last?.map (·.isParagraph)).getD false && underlineLevel? bar = some 2
          if isRule 0 bar && !underlines then (.closes, st) else (.container, st)
      | none =>
        if indent < offset then (.closes, st)
        else if st.emptyItem then (.closes, st)
        else (.container, st)
  | .item offset =>
    if isBlank line then (.container, { st with cursor := cursor.advance (line.length - 1) })
    else
      let isEmpty := b.children.isEmpty && st.chain.length = depth + 1 && st.emptyItem
      let indent := (indentation cursor.column line).1
      let near := (isEmpty || indent < offset) && indent < 4
      if near && (ListMarker.ofLine? line).isSome then (.closes, { st with skipList := true })
      else if near && !isEmpty then (.closes, st)
      else
        match indentPosition? cursor.column 0 offset line with
        | some (pos, padding) => (.container, { st with cursor := cursor.advancePadded pos padding })
        | none => (.container, st)
  | .code =>
    if isBlank line then (.leaf, addLine (blankCodeLine cursor.segment))
    else
      match codeLine? cursor with
      | some s => (.leaf, addLine s)
      | none => (.closes, st)
  | .fenced mark indent length _ =>
    let (w, pos) := indentation cursor.column line
    let fence := ((line.drop pos).takeWhile (· = mark)).length
    if w < 4 && fence ≥ length && isBlank (line.drop (pos + fence)) then
      let ends := if line.getLast? = some '\n' then 1 else 0
      (.closes, { st with cursor := cursor.advance (line.length - ends) })
    else (.leaf, addLine (fencedLine cursor indent))
  | .html kind _ =>
    let s := cursor.segment
    let first := (b.lines.head?.map Segment.value).getD []
    let close := fun (c : Cursor) =>
      { st with
        cursor := c
        chain := st.chain.modify depth fun b => { b with shape := .html kind (some s) } }
    match kind with
    | .blockTag => if isBlank line then (.closes, st) else (.leaf, addLine s)
    | .anyTag => if isBlank line then (.closes, st) else (.leaf, addLine s)
    | .verbatim =>
      if b.lines.length = 1 && HtmlTag.closesVerbatim first then (.closes, st)
      else if HtmlTag.closesVerbatim line then
        (.closes, close (cursor.advance (trimRight isBlankAscii line).length))
      else (.leaf, addLine s)
    | _ =>
      if b.lines.length = 1 && has first kind.closer then (.closes, st)
      else if has line kind.closer then (.closes, close (cursor.advance line.length))
      else (.leaf, addLine s)
  | _ => (.closes, st)

/-- Leads a line through the open blocks from depth `depth` on; `fuel` is the number of those blocks. -/
def walkChain (fuel depth : Nat) (st : BlockState) : BlockState :=
  match fuel with
  | 0 => st
  | fuel + 1 =>
    match st.chain[depth]? with
    | none => st
    | some b =>
      if st.cursor.atEnd then st.closeBlocks 0 st.chain.length
      else
        let row := st.cursor.row
        let count := st.chain.length
        let st := { st with sightings := ⟨row, depth, isBlank st.cursor.text⟩ :: st.sightings }
        let (state, st) := if b.isParagraph then (.closes, st) else continueBlock st depth b
        match state with
        | .leaf => walkChain fuel (depth + 1) st
        | .container =>
          if depth + 1 = count then
            (st.openOnLine (depth + 1) (blankAbove row (depth + 1) st.sightings)).2.2
          else walkChain fuel (depth + 1) st
        | .closes =>
          match st.openOnLine depth (blankAbove row depth st.sightings) with
          | (.continued, _, st) => st
          | (_, taken, st) => st.closeBlocks depth (if taken then count - depth - 1 else count - depth)

/-- One line, or a run of blank lines and the line behind them when no block is open. -/
def stepLine (st : BlockState) : BlockState :=
  if st.chain.isEmpty then
    let (blanks, cursor) := st.cursor.skipBlankLines
    let st := { st with cursor := cursor, sightings := if blanks = 0 then st.sightings else [] }
    if cursor.atEnd then st
    else
      let st := (st.openOnLine 0 (blankAbove cursor.row 0 st.sightings)).2.2
      { st with cursor := st.cursor.nextLine }
  else
    let st := walkChain st.chain.length 0 st
    { st with cursor := st.cursor.nextLine }

/-- Goes through the lines. Every step leaves at least one line behind. -/
def runLines : Nat → BlockState → BlockState
  | 0, st => st
  | n + 1, st =>
    if st.chain.isEmpty && st.cursor.atEnd then st else runLines n (stepLine st)

/-- The top-level blocks of a document and the link references defined in it. -/
def draftBlocks (src : Text) : List Draft × List Reference :=
  let cursor := Cursor.ofText src
  let st := runLines (cursor.later.length + 3) ⟨cursor, [], [], [], [], false, false⟩
  (st.done, st.refs)

end Docweave.Markdown
