import Docweave.Markdown.BlockPass
import Docweave.Markdown.InlinePass

/-!
# From text to document

Joins the two passes: the block pass finds the blocks and link references, then the inline pass reads the
text of each block.
-/

namespace Docweave.Markdown

/-- A segment as a numbered line. -/
def Segment.toSourceLine (s : Segment) : SourceLine := ⟨s.row + 1, s.value⟩

/-- Lines of a draft as numbered lines. -/
def sourceLines (lines : List Segment) : List SourceLine := lines.map Segment.toSourceLine

/-- The word in front of the first space of a fence's info. -/
def infoLanguage (info : Text) : Text := info.takeWhile (· ≠ ' ')

/-- The cells of a table row. -/
def draftCells (refs : List Reference) (row : Draft) : List Cell :=
  row.children.map fun c =>
    let escapes := match c.shape with
      | .tableCell es => es
      | _ => []
    ⟨sourceLines c.lines, inlineContent refs escapes c.lines⟩

mutual

/-- The block that a draft becomes. -/
def Draft.toBlock (refs : List Reference) : Draft → Block
  | .mk shape _ lines children =>
    match shape with
    | .heading level => .heading level (sourceLines lines) (inlineContent refs [] lines)
    | .paragraph => .paragraph (sourceLines lines) (inlineContent refs [] lines)
    | .quote => .quote (Draft.toBlocks refs children)
    | .list mark first =>
      .list (if mark = '.' || mark = ')' then some first else none) (Draft.toBlocks refs children)
    | .item _ => .item (Draft.toBlocks refs children)
    | .fenced _ _ _ info => .fencedCode (infoLanguage info) (sourceLines lines)
    | .code => .code (sourceLines lines)
    | .html _ closure => .html (sourceLines lines) ((closure.map Segment.value).getD [])
    | .thematicBreak => .thematicBreak
    | .table =>
      match children with
      | header :: rows => .table (draftCells refs header) (rows.map (draftCells refs))
      | [] => .table [] []
    | _ => .textBlock (sourceLines lines) (inlineContent refs [] lines)

/-- The blocks that drafts become. -/
def Draft.toBlocks (refs : List Reference) : List Draft → List Block
  | [] => []
  | d :: ds => Draft.toBlock refs d :: Draft.toBlocks refs ds

end

/-- The document of a Markdown text. -/
def parse (src : Text) : Document :=
  let (drafts, refs) := draftBlocks src
  Draft.toBlocks refs drafts

end Docweave.Markdown
